import NodeScript.Proofs.Graph.Draft

/-!
# Sound drafts

Every step of a construction keeps the draft sound: identities are told apart, nodes keep their
shape, links run from completed nodes to enabled inputs, and completed nodes stay as they are.
-/

namespace NodeScript

open List OrderedMap

variable {port : Port}

/-! ## Lookups after an update -/

namespace Except

variable {ε α β : Type} {fault : Prop}

/-- A sequence succeeds where both of its parts do. -/
theorem bind_eq_ok {x : Except ε α} {f : α → Except ε β} {b : β} :
    (x >>= f) = .ok b ↔ ∃ a, x = .ok a ∧ f a = .ok b := by
  cases x with
  | error e => simp [bind, Except.bind]
  | ok a => simp [bind, Except.bind]

/-- A sequence fails where one of its parts does. -/
theorem bind_eq_error {x : Except ε α} {f : α → Except ε β} {e : ε} :
    (x >>= f) = .error e ↔ x = .error e ∨ ∃ a, x = .ok a ∧ f a = .error e := by
  cases x with
  | error e' => simp [bind, Except.bind]
  | ok a => simp [bind, Except.bind]

/-- A check in front of a step succeeds where it finds no fault. -/
theorem guard_eq_ok [Decidable fault] {e : ε} {rest : Except ε α} {a : α} :
    (if fault then (throw e : Except ε PUnit) >>= fun _ => rest else rest) = .ok a ↔ ¬ fault ∧ rest = .ok a := by
  by_cases h : fault
  · simp [h, bind, Except.bind, throw, throwThe, MonadExceptOf.throw]
  · simp [h]

theorem last_guard_eq_ok [Decidable fault] {e : ε} :
    (if fault then throw e else pure () : Except ε Unit) = .ok () ↔ ¬ fault := by
  by_cases h : fault
  · simp [h, throw, throwThe, MonadExceptOf.throw]
  · simp [h, pure, Except.pure]

end Except

namespace Graph

variable (graph : Graph) {id : NodeId} {node : Node}

theorem linkNode_eq_ok : graph.linkNode id = .ok node ↔ graph.node? id = some node := by
  unfold linkNode
  cases graph.node? id <;> simp

theorem linkPort_eq_ok {id : PortId} : linkPort node id = .ok port ↔ node.port? id = some port := by
  unfold linkPort
  cases node.port? id <;> simp

@[simp] theorem node?_withNode (node : Node) (id : NodeId) :
    (graph.withNode node).node? id = if id = node.id then some node else graph.node? id :=
  get?_insert _ _ _ _

@[simp] theorem node?_updateNode (key id : NodeId) (f : Node → Node) :
    (graph.updateNode key f).node? id = if id = key then (graph.node? id).map f else graph.node? id :=
  get?_modify _ _ _ _

@[simp] theorem node?_withLink (link : Link) (id : NodeId) : (graph.withLink link).node? id = graph.node? id :=
  rfl

@[simp] theorem node?_withOutput (sink : NodeId) (entry : Entry) (port : Port) (id : NodeId) :
    (graph.withOutput sink entry port).node? id =
      if id = sink then (graph.node? id).map fun node => { node with inputs := node.inputs ++ [port] }
      else graph.node? id :=
  get?_modify _ _ _ _

/-- A change of a node that is there depends on that node alone. -/
theorem updateNode_eq {graph : Graph} (h : graph.node? id = some node) (f : Node → Node) :
    graph.updateNode id f = graph.updateNode id fun _ => f node := by
  rw [updateNode, updateNode, modify_eq_const h]

theorem node?_updateNode_const {graph : Graph} (h : graph.node? id = some node) (node' : Node) (key : NodeId) :
    (graph.updateNode id fun _ => node').node? key = if key = id then some node' else graph.node? key := by
  rw [node?_updateNode]
  split
  next heq =>
    rw [heq, h]
    rfl
  next => rfl

/-- A further node that is changed at once. -/
theorem updateNode_withNode {node' : Node} (h : node'.id = node.id) :
    ((graph.withNode node).updateNode node.id fun _ => node') = graph.withNode node' := by
  simp only [withNode, updateNode, modify_insert, h]

@[simp] theorem links_withNode (node : Node) : (graph.withNode node).links = graph.links := rfl

@[simp] theorem links_updateNode (id : NodeId) (f : Node → Node) : (graph.updateNode id f).links = graph.links :=
  rfl

@[simp] theorem links_withOutput (sink : NodeId) (entry : Entry) (port : Port) :
    (graph.withOutput sink entry port).links = graph.links := rfl

theorem values_withLink {link : Link} (h : link.id ∉ graph.links.keys) :
    (graph.withLink link).links.values = graph.links.values ++ [link] := by
  rw [withLink, OrderedMap.values, entries_insert_of_not_mem h, map_append]
  rfl

theorem keys_withLink {link : Link} (h : link.id ∉ graph.links.keys) :
    (graph.withLink link).links.keys = graph.links.keys ++ [link.id] := by
  rw [withLink, OrderedMap.keys, entries_insert_of_not_mem h, map_append]
  rfl

theorem mem_values_withLink {link other : Link} (h : link.id ∉ graph.links.keys)
    (hother : other ∈ (graph.withLink link).links.values) : other ∈ graph.links.values ∨ other = link := by
  rwa [values_withLink graph h, mem_append, mem_singleton] at hother

/-- An input that takes one link still has one at most behind a further link to a free port. -/
theorem length_linksTo_withLink {link : Link} {port : Port} (h : link.id ∉ graph.links.keys)
    (single : (graph.linksTo port.id).length ≤ 1) (hmulti : port.multiInput = false)
    (free : link.toPort = port.id → port.multiInput = true ∨ graph.isLinked link.toPort = false) :
    ((graph.withLink link).linksTo port.id).length ≤ 1 := by
  have hsplit : (graph.withLink link).linksTo port.id =
      graph.linksTo port.id ++ [link].filter fun l => l.toPort = port.id := by
    rw [linksTo, values_withLink graph h, filter_append]
    rfl
  rw [hsplit, length_append]
  by_cases hto : link.toPort = port.id
  · have hunlinked : graph.isLinked port.id = false := by
      rcases free hto with h | h
      · rw [hmulti] at h
        cases h
      · rwa [← hto]
    have hnil : graph.linksTo port.id = [] := by
      refine filter_eq_nil_iff.mpr fun other hother => ?_
      simpa using any_eq_false.mp hunlinked other hother
    simp [hnil, hto]
  · simpa [hto] using single

/-- Nodes stand under their identities, no identity stands for two ports, and all codes are below
`next`. -/
structure Numbered (graph : Graph) (next : Nat) : Prop where
  keyed : ∀ {id node}, graph.node? id = some node → node.id = id
  codes : ∀ {id node}, graph.node? id = some node → id.code < next ∧ ∀ port ∈ node.ports, port.id.code < next
  distinct : ∀ {id node}, graph.node? id = some node → (node.ports.map Port.id).Nodup
  owner : ∀ {id id' node node'}, graph.node? id = some node → graph.node? id' = some node' →
    ∀ port ∈ node.ports.map Port.id, port ∈ node'.ports.map Port.id → id = id'

/-- A lookup finds the node that has been written or another one. -/
theorem node?_cases {graph graph' : Graph}
    (look : ∀ key, graph'.node? key = if key = id then some node else graph.node? key) {key : NodeId} {found : Node}
    (h : graph'.node? key = some found) : (key = id ∧ found = node) ∨ (key ≠ id ∧ graph.node? key = some found) := by
  rw [look] at h
  split at h
  next heq => exact .inl ⟨heq, (Option.some.inj h).symm⟩
  next hne => exact .inr ⟨hne, h⟩

/-- A node is written whose ports no other node has. -/
theorem Numbered.write {graph graph' : Graph} {next next' : Nat} (h : graph.Numbered next) (le : next ≤ next')
    (hid : node.id = id) (lt : id.code < next') (distinct : (node.ports.map Port.id).Nodup)
    (ports : ∀ port ∈ node.ports.map Port.id, port.code < next' ∧
      ∀ key old, graph.node? key = some old → port ∈ old.ports.map Port.id → key = id)
    (look : ∀ key, graph'.node? key = if key = id then some node else graph.node? key) : graph'.Numbered next' where
  keyed := by
    intro key found hfound
    rcases node?_cases look hfound with ⟨rfl, rfl⟩ | ⟨_, hold⟩
    · exact hid
    · exact h.keyed hold
  codes := by
    intro key found hfound
    rcases node?_cases look hfound with ⟨rfl, rfl⟩ | ⟨_, hold⟩
    · exact ⟨lt, fun port hport => (ports port.id (mem_map_of_mem hport)).1⟩
    · exact ⟨Nat.lt_of_lt_of_le (h.codes hold).1 le,
        fun port hport => Nat.lt_of_lt_of_le ((h.codes hold).2 port hport) le⟩
  distinct := by
    intro key found hfound
    rcases node?_cases look hfound with ⟨rfl, rfl⟩ | ⟨_, hold⟩
    · exact distinct
    · exact h.distinct hold
  owner := by
    intro key key' found found' hfound hfound' port hport hport'
    rcases node?_cases look hfound with ⟨rfl, rfl⟩ | ⟨_, hold⟩
    · rcases node?_cases look hfound' with ⟨rfl, rfl⟩ | ⟨_, hold'⟩
      · rfl
      · exact ((ports port hport).2 key' found' hold' hport').symm
    · rcases node?_cases look hfound' with ⟨rfl, rfl⟩ | ⟨_, hold'⟩
      · exact (ports port hport').2 key found hold hport
      · exact h.owner hold hold' port hport hport'

/-- The conditions of a link. -/
theorem checkLink_eq_ok {fromNode : NodeId} {fromPort : PortId} {toNode : NodeId} {toPort : PortId} :
    graph.checkLink fromNode fromPort toNode toPort = .ok () ↔
      ∃ source target output input, graph.node? fromNode = some source ∧ graph.node? toNode = some target ∧
        source.port? fromPort = some output ∧ target.port? toPort = some input ∧
        output.direction = .output ∧ input.direction = .input ∧ output.type.connectsTo input.type = true ∧
        (input.multiInput = true ∨ graph.isLinked toPort = false) ∧ fromNode ≠ toNode := by
  unfold checkLink
  simp only [Except.bind_eq_ok, linkNode_eq_ok, linkPort_eq_ok, Except.guard_eq_ok, Except.last_guard_eq_ok]
  constructor
  · rintro ⟨source, hsource, target, htarget, output, houtput, input, hinput, hdirection, hconnect, hfree, hloop⟩
    simp only [ne_eq, not_or, not_not] at hdirection
    refine ⟨source, target, output, input, hsource, htarget, houtput, hinput, hdirection.1, hdirection.2, ?_, ?_,
      hloop⟩
    · simpa [Socket.canConnect, hdirection.1, hdirection.2] using hconnect
    · cases hmulti : input.multiInput with
      | true => exact Or.inl rfl
      | false => exact Or.inr (by simpa [hmulti] using hfree)
  · rintro ⟨source, target, output, input, hsource, htarget, houtput, hinput, hout, hin, hconnect, hfree, hloop⟩
    refine ⟨source, hsource, target, htarget, output, houtput, input, hinput, ?_, ?_, ?_, hloop⟩
    · simp [hout, hin]
    · simp [Socket.canConnect, hout, hin, hconnect]
    · rcases hfree with h | h <;> simp [h]

end Graph

namespace Draft

variable {next : Nat} {entry : Entry}

/-- What holds of a graph at every point of its construction. -/
structure Sound (rules : Rules) (draft : Draft) : Prop extends draft.graph.Numbered draft.next where
  linkCodes : ∀ id ∈ draft.graph.links.keys, id.code < draft.next
  shaped : ∀ {id node}, draft.graph.node? id = some node → node.role.isBoundary = false →
    Allows rules (draft.info id) ∧ node.Instantiates (draft.info id).shape
  nodup : draft.done.Nodup
  present : ∀ id ∈ draft.done, ∃ node, draft.graph.node? id = some node
  linked : ∀ link ∈ draft.graph.links.values, draft.Linked rules link
  ordered : ∀ link ∈ draft.graph.links.values, link.toNode ∈ draft.done →
    draft.done.idxOf link.fromNode < draft.done.idxOf link.toNode
  single : ∀ {id node port}, draft.graph.node? id = some node → port ∈ node.inputs → port.multiInput = false →
    (draft.graph.linksTo port.id).length ≤ 1
  complete : ∀ id ∈ draft.done, id = draft.source ∨
    ∃ node, draft.graph.node? id = some node ∧ draft.Complete rules id node
  source : draft.source ∈ draft.done ∧ (draft.info draft.source).shows = [] ∧
    ∃ node, draft.graph.node? draft.source = some node ∧ node.role = .groupInput ∧ node.inputs = [] ∧
      node.outputs.map Port.toSocket = draft.graph.interface.inputs.map fun entry => entry.socket .output
  sink : draft.sink ∉ draft.done ∧ (draft.info draft.sink).reads = [] ∧
    ∃ node, draft.graph.node? draft.sink = some node ∧ node.role = .groupOutput ∧ node.outputs = [] ∧
      node.inputs.map Port.toSocket = draft.graph.interface.outputs.map fun entry => entry.socket .input
  boundary : ∀ {id node}, draft.graph.node? id = some node → node.role.isBoundary = true →
    id = draft.source ∨ id = draft.sink

/-- What stays of a draft while its construction goes on. -/
structure Later (draft draft' : Draft) : Prop where
  source : draft'.source = draft.source
  sink : draft'.sink = draft.sink
  name : draft'.graph.name = draft.graph.name
  inputs : draft'.graph.interface.inputs = draft.graph.interface.inputs
  next : draft.next ≤ draft'.next
  done : draft.done <+: draft'.done
  kept : ∀ id ∈ draft.done, draft'.graph.node? id = draft.graph.node? id
  info : ∀ id, (draft.graph.node? id).isSome = true → draft'.info id = draft.info id
  found : ∀ id, (draft.graph.node? id).isSome = true → (draft'.graph.node? id).isSome = true
  links : draft.graph.links.values <+: draft'.graph.links.values

namespace Later

theorem refl (draft : Draft) : Later draft draft :=
  ⟨rfl, rfl, rfl, rfl, Nat.le_refl _, prefix_rfl, fun _ _ => rfl, fun _ _ => rfl, fun _ h => h,
    prefix_rfl⟩

theorem trans {a b c : Draft} (first : Later a b) (second : Later b c) : Later a c where
  source := second.source.trans first.source
  sink := second.sink.trans first.sink
  name := second.name.trans first.name
  inputs := second.inputs.trans first.inputs
  next := Nat.le_trans first.next second.next
  done := first.done.trans second.done
  kept := fun id hid => (second.kept id (first.done.subset hid)).trans (first.kept id hid)
  info := fun id hid => (second.info id (first.found id hid)).trans (first.info id hid)
  found := fun id hid => second.found id (first.found id hid)
  links := first.links.trans second.links

end Later

variable {rules : Rules} {draft draft' : Draft}

namespace Sound

variable (sound : draft.Sound rules)
include sound

theorem not_mem_of_le {id : NodeId} (h : draft.next ≤ id.code) :
    draft.graph.node? id = none := by
  cases hnode : draft.graph.node? id with
  | none => rfl
  | some node => exact absurd (sound.codes hnode).1 (Nat.not_lt.mpr h)

theorem unused {id : Identity} (h : draft.next ≤ id.code) : draft.Unused id := by
  refine ⟨sound.not_mem_of_le h, fun key node hnode hmem => ?_⟩
  obtain ⟨port, hport, rfl⟩ := mem_map.mp hmem
  exact Nat.not_lt.mpr h ((sound.codes hnode).2 port hport)

theorem link_not_mem {id : LinkId} (h : draft.next ≤ id.code) :
    id ∉ draft.graph.links.keys := fun hmem => absurd (sound.linkCodes id hmem) (Nat.not_lt.mpr h)

end Sound

/-! ## What stays -/

theorem later_skip (le : draft.next ≤ next) : Later draft { draft with next } :=
  { Later.refl draft with next := le }

theorem later_add (sound : draft.Sound rules) {node : Node} {info : Info} {next : Nat} (le : draft.next ≤ next)
    (unused : draft.Unused node.id) : Later draft
      { draft with graph := draft.graph.withNode node, info := Function.update draft.info node.id info, next } := by
  have hne : ∀ id, (draft.graph.node? id).isSome = true → id ≠ node.id := by
    rintro id hid rfl
    rw [unused.node] at hid
    cases hid
  refine { Later.refl draft with next := le, kept := ?_, info := ?_, found := ?_ }
  · intro id hid
    obtain ⟨old, hold⟩ := sound.present id hid
    simp [hne id (by simp [hold])]
  · exact fun id hid => Function.update_of_ne (hne id hid) _ _
  · intro id hid
    simpa [hne id hid] using hid

theorem later_revise {node node' : Node} (found : draft.graph.node? node.id = some node)
    (opened : node.id ∉ draft.done) :
    Later draft { draft with graph := draft.graph.updateNode node.id fun _ => node' } := by
  refine { Later.refl draft with kept := ?_, found := ?_ }
  · intro id hid
    have hne : id ≠ node.id := fun heq => opened (heq ▸ hid)
    simp [hne]
  · intro id hid
    by_cases heq : id = node.id
    · simp [heq, found]
    · simpa [heq] using hid

theorem later_link (sound : draft.Sound rules) {link : Link}
    (le : draft.next ≤ link.id.code) (lt : link.id.code < next) :
    Later draft { draft with graph := draft.graph.withLink link, next } := by
  refine { Later.refl draft with next := ?_, links := ?_ }
  · exact Nat.le_trans le (Nat.le_of_lt lt)
  · rw [Graph.values_withLink _ (sound.link_not_mem le)]
    exact prefix_append _ _

theorem later_close (draft : Draft) (id : NodeId) : Later draft { draft with done := draft.done ++ [id] } :=
  { Later.refl draft with done := prefix_append _ _ }

theorem later_output (sound : draft.Sound rules) {next : Nat}
    (le : draft.next ≤ port.id.code) (lt : port.id.code < next) :
    Later draft { draft with graph := draft.graph.withOutput draft.sink entry port, next } := by
  refine { Later.refl draft with next := ?_, kept := ?_, found := ?_ }
  · exact Nat.le_trans le (Nat.le_of_lt lt)
  · intro id hid
    have hne : id ≠ draft.sink := fun heq => sound.sink.1 (heq ▸ hid)
    simp [hne]
  · intro id hid
    by_cases heq : id = draft.sink
    · simpa [heq] using heq ▸ hid
    · simpa [heq] using hid

/-! ## Preservation -/

theorem Complete.later {id : NodeId} {node : Node} (complete : draft.Complete rules id node)
    (later : Later draft draft') (hid : (draft.graph.node? id).isSome = true) :
    draft'.Complete rules id node := by
  have hinfo := later.info id hid
  cases complete with
  | plain spec listed inner shape unpaired path called =>
    rw [← hinfo] at shape path
    exact .plain spec listed inner shape unpaired path called
  | group function name interface args callee called shape unpaired path graph refers =>
    rw [← hinfo] at shape path
    exact .group function name interface args callee called shape unpaired path graph refers
  | entry kind items exit paired shape exitShape path exitReads exitShows named found =>
    rw [← hinfo] at shape path exitReads exitShows
    rw [← later.info exit found] at exitShape exitReads exitShows
    exact .entry kind items exit paired shape exitShape path exitReads exitShows named (later.found exit found)
  | exit kind items entry entryNode complete found paired unpaired shape entryShape reads =>
    rw [← hinfo] at shape reads
    rw [← later.info entry (by rw [found]; rfl)] at entryShape
    exact .exit kind items entry entryNode (later.done.subset complete)
      ((later.kept entry complete).trans found) paired unpaired shape entryShape reads

namespace Linked

variable {link : Link}

theorem start_isSome (linked : draft.Linked rules link) : (draft.graph.node? link.fromNode).isSome = true := by
  obtain ⟨node, port, hnode, _⟩ := linked.start
  rw [hnode]
  rfl

theorem finish_isSome (linked : draft.Linked rules link) : (draft.graph.node? link.toNode).isSome = true := by
  obtain ⟨node, port, hnode, _⟩ := linked.finish
  rw [hnode]
  rfl

/-- A link stays if the port at its end does. -/
theorem later (linked : draft.Linked rules link) (later : Later draft draft')
    (finish : ∃ node port, draft'.graph.node? link.toNode = some node ∧ port ∈ node.inputs ∧
      port.id = link.toPort ∧ port.enabled = true ∧
      (node.role.isBoundary = false → node.Pristine (draft.info link.toNode).shape link.toPort)) :
    draft'.Linked rules link where
  ready := later.done.subset linked.ready
  start := by
    rw [later.kept _ linked.ready]
    exact linked.start
  finish := by
    rw [later.info _ linked.finish_isSome]
    exact finish
  scope := by
    rw [later.info _ linked.finish_isSome, later.info _ linked.start_isSome]
    exact linked.scope

theorem later_of_eq (linked : draft.Linked rules link) (later : Later draft draft')
    (h : draft'.graph.node? link.toNode = draft.graph.node? link.toNode) : draft'.Linked rules link := by
  refine linked.later later ?_
  rw [h]
  exact linked.finish

end Linked

namespace Sound

/-- A port with an unused identity has no links. -/
theorem linksTo_eq_nil (sound : draft.Sound rules) {port : PortId} (h : draft.Unused port) :
    draft.graph.linksTo port = [] := by
  refine filter_eq_nil_iff.mpr fun link hlink => ?_
  obtain ⟨node, found, hnode, hport, hid, _⟩ := (sound.linked link hlink).finish
  simp only [decide_eq_true_eq]
  intro heq
  refine h.port _ node hnode ?_
  rw [← heq, ← hid]
  exact mem_map_of_mem (mem_append_left _ hport)

/-! Completed nodes, and the source among them, stay what they are. -/

section Later

variable (sound : draft.Sound rules) (later : Later draft draft')
include sound later

theorem present_later : ∀ id ∈ draft.done, ∃ node, draft'.graph.node? id = some node := by
  intro id hid
  rw [later.kept id hid]
  exact sound.present id hid

theorem complete_later : ∀ id ∈ draft.done, id = draft'.source ∨
    ∃ node, draft'.graph.node? id = some node ∧ draft'.Complete rules id node := by
  intro id hid
  rcases sound.complete id hid with rfl | ⟨node, hnode, hcomplete⟩
  · exact Or.inl later.source.symm
  · exact Or.inr ⟨node, (later.kept id hid).trans hnode, hcomplete.later later (by rw [hnode]; rfl)⟩

theorem source_later : draft'.source ∈ draft'.done ∧ (draft'.info draft'.source).shows = [] ∧
    ∃ node, draft'.graph.node? draft'.source = some node ∧ node.role = .groupInput ∧ node.inputs = [] ∧
      node.outputs.map Port.toSocket = draft'.graph.interface.inputs.map fun entry => entry.socket .output := by
  obtain ⟨hdone, hshows, node, hnode, hrest⟩ := sound.source
  rw [later.source, later.inputs, later.kept _ hdone, later.info _ (by rw [hnode]; rfl)]
  exact ⟨later.done.subset hdone, hshows, node, hnode, hrest⟩

end Later

section

variable (sound : draft.Sound rules)
include sound

theorem skip {next : Nat} (le : draft.next ≤ next) :
    Sound rules { draft with next } :=
  { sound with
    codes := fun hnode => ⟨Nat.lt_of_lt_of_le (sound.codes hnode).1 le, fun port hport =>
      Nat.lt_of_lt_of_le ((sound.codes hnode).2 port hport) le⟩
    linkCodes := fun id hid => Nat.lt_of_lt_of_le (sound.linkCodes id hid) le
    linked := fun link hlink => (sound.linked link hlink).later_of_eq (later_skip le) rfl
    complete := sound.complete_later (later_skip le) }

theorem add {node : Node} {info : Info} {first next : Nat}
    (made : node.Made info.shape first next) (le : draft.next ≤ next)
    (unused : ∀ id ∈ node.id :: node.ports.map Port.id, draft.Unused id) (inner : node.role.isBoundary = false)
    (allowed : Allows rules info) :
    Sound rules
      { draft with graph := draft.graph.withNode node, info := Function.update draft.info node.id info, next } := by
  have later := @later_add rules draft sound node info next le (unused _ mem_cons_self)
  have hne : ∀ {id : NodeId} {old : Node}, draft.graph.node? id = some old → id ≠ node.id := by
    rintro id old hold rfl
    rw [(unused node.id mem_cons_self).node] at hold
    cases hold
  have hnew : ∀ port ∈ node.ports.map Port.id, draft.Unused port := fun port hport =>
    unused port (.tail _ hport)
  have look := draft.graph.node?_withNode node
  have hold : ∀ {id : NodeId} {old : Node}, draft.graph.node? id = some old →
      (draft.graph.withNode node).node? id = some old := fun h => ((look _).trans (if_neg (hne h))).trans h
  have numbered := sound.toNumbered.write le rfl (made.draws.range _ mem_cons_self).2
    (nodup_cons.mp made.draws.nodup).2 (fun port hport =>
      ⟨(made.draws.range port (.tail _ hport)).2, fun key old h hmem =>
        absurd hmem ((hnew port hport).port key old h)⟩) look
  refine ⟨numbered, fun id hid => Nat.lt_of_lt_of_le (sound.linkCodes id hid) le, ?shaped, sound.nodup,
    sound.present_later later, ?linked, sound.ordered, ?single, sound.complete_later later, sound.source_later later,
    ?sink, ?boundary⟩
  case shaped =>
    intro id found hfound hrole
    rcases Graph.node?_cases look hfound with ⟨rfl, rfl⟩ | ⟨hid, h⟩
    · simpa only [Function.update_self] using ⟨allowed, made.shape⟩
    · simpa only [Function.update_of_ne hid] using sound.shaped h hrole
  case linked =>
    intro link hlink
    have hlinked := sound.linked link hlink
    obtain ⟨found, port, hfound, _⟩ := hlinked.finish
    exact hlinked.later_of_eq later ((hold hfound).trans hfound.symm)
  case single =>
    intro id found port hfound hport hmulti
    rcases Graph.node?_cases look hfound with ⟨rfl, rfl⟩ | ⟨hid, h⟩
    · have hnil := sound.linksTo_eq_nil (hnew port.id (mem_map_of_mem (mem_append_left _ hport)))
      exact Nat.le_trans (Nat.le_of_eq (congrArg length hnil)) (Nat.zero_le _)
    · exact sound.single h hport hmulti
  case sink =>
    obtain ⟨hdone, hreads, found, hfound, hrest⟩ := sound.sink
    refine ⟨hdone, ?_, found, hold hfound, hrest⟩
    simpa only [Function.update_of_ne (hne hfound)] using hreads
  case boundary =>
    intro id found hfound hrole
    rcases Graph.node?_cases look hfound with ⟨rfl, rfl⟩ | ⟨_, h⟩
    · rw [inner] at hrole
      cases hrole
    · exact sound.boundary h hrole

theorem revise {node node' : Node} (found : draft.graph.node? node.id = some node)
    (opened : node.id ∉ draft.done) (inner : node.role.isBoundary = false)
    (shape : node'.Instantiates (draft.info node.id).shape) (ports : node.SamePorts node')
    (linked : ∀ port ∈ node.inputs, draft.graph.isLinked port.id = true → port ∈ node'.inputs) :
    Sound rules { draft with graph := draft.graph.updateNode node.id fun _ => node' } := by
  have later := @later_revise draft node node' found opened
  have hids : node'.ports.map Port.id = node.ports.map Port.id := by
    simp only [Node.ports, map_append, ports.inputs, ports.outputs]
  have hshape := (sound.shaped found inner).2
  have hrole : node'.role = node.role := shape.role.trans hshape.role.symm
  have look := Graph.node?_updateNode_const found node'
  have hkept : ∀ {id : NodeId} {old : Node}, id ≠ node.id → draft.graph.node? id = some old →
      (draft.graph.updateNode node.id fun _ => node').node? id = some old := fun hid hold =>
    ((look _).trans (if_neg hid)).trans hold
  have numbered : (draft.graph.updateNode node.id fun _ => node').Numbered draft.next := by
    refine sound.toNumbered.write (Nat.le_refl _) ports.id
      (sound.codes found).1 (hids ▸ sound.distinct found) ?_ look
    intro port hport
    rw [hids] at hport
    obtain ⟨old, hold, rfl⟩ := mem_map.mp hport
    exact ⟨(sound.codes found).2 old hold, fun key other hother hmem => sound.owner hother found _ hmem hport⟩
  refine ⟨numbered, sound.linkCodes, ?shaped, sound.nodup,
    sound.present_later later, ?linked, sound.ordered, ?single,
    sound.complete_later later, sound.source_later later, ?sink, ?boundary⟩
  case shaped =>
    intro id new hnew hnewRole
    rcases Graph.node?_cases look hnew with ⟨rfl, rfl⟩ | ⟨_, h⟩
    · exact ⟨(sound.shaped found inner).1, shape⟩
    · exact sound.shaped h hnewRole
  case linked =>
    intro link hlink
    have hlinked := sound.linked link hlink
    obtain ⟨old, port, hold, hport, hid, henabled, hpristine⟩ := hlinked.finish
    by_cases heq : link.toNode = node.id
    · rw [heq, found, Option.some.injEq] at hold
      subst hold
      have hisLinked : draft.graph.isLinked port.id = true :=
        any_eq_true.mpr ⟨link, hlink, by simpa using hid.symm⟩
      have hport' := linked port hport hisLinked
      refine hlinked.later later ⟨node', port, (look _).trans (if_pos heq), hport', hid, henabled, fun hrole' => ?_⟩
      refine (hpristine inner).revise ports.inputs ?_ hport hport' hid
      have hnodup := sound.distinct found
      rw [Node.ports, map_append] at hnodup
      exact (nodup_append.mp hnodup).1
    · exact hlinked.later_of_eq later ((hkept heq hold).trans hold.symm)
  case single =>
    intro id new port hnew hport hmulti
    rcases Graph.node?_cases look hnew with ⟨rfl, rfl⟩ | ⟨_, h⟩
    · obtain ⟨socket, _, old, hold, hid, hfits, hfits'⟩ :=
        Node.exists_partner hshape.inputs shape.inputs ports.inputs hport
      rw [← hid]
      exact sound.single found hold (hfits.multiInput.trans (hfits'.multiInput.symm.trans hmulti))
    · exact sound.single h hport hmulti
  case sink =>
    obtain ⟨hdone, hreads, old, hold, hold', hrest⟩ := sound.sink
    refine ⟨hdone, hreads, old, hkept ?_ hold, hold', hrest⟩
    intro heq
    rw [heq, found, Option.some.injEq] at hold
    rw [hold, hold'] at inner
    cases inner
  case boundary =>
    intro id new hnew hnewRole
    rcases Graph.node?_cases look hnew with ⟨rfl, rfl⟩ | ⟨_, h⟩
    · rw [hrole, inner] at hnewRole
      cases hnewRole
    · exact sound.boundary h hnewRole

/-- The node of a port is known from its identity. -/
theorem eq_of_mem_ports {id id' : NodeId} {node node' : Node} {port' : Port}
    (hnode : draft.graph.node? id = some node) (hnode' : draft.graph.node? id' = some node')
    (hport : port ∈ node.ports) (hport' : port' ∈ node'.ports) (h : port.id = port'.id) :
    id = id' ∧ node = node' ∧ port = port' := by
  have hid := sound.owner hnode hnode' port.id (mem_map_of_mem hport) (h ▸ mem_map_of_mem hport')
  subst hid
  rw [hnode, Option.some.injEq] at hnode'
  subst hnode'
  exact ⟨rfl, rfl, Node.eq_of_id_eq (sound.distinct hnode) hport hport' h⟩

theorem link {link : Link} {next : Nat} (le : draft.next ≤ link.id.code)
    (lt : link.id.code < next)
    (check : draft.graph.checkLink link.fromNode link.fromPort link.toNode link.toPort = .ok ())
    (opened : link.toNode ∉ draft.done) (linked : draft.Linked rules link) :
    Sound rules { draft with graph := draft.graph.withLink link, next } := by
  have later := later_link sound le lt
  have hnew := sound.link_not_mem le
  have hle : draft.next ≤ next := Nat.le_trans le (Nat.le_of_lt lt)
  refine { sound with
    codes := (sound.skip hle).codes, linkCodes := ?linkCodes
    linked := ?linked, ordered := ?ordered, single := ?single
    complete := sound.complete_later later }
  case linkCodes =>
    intro id hid
    rw [draft.graph.keys_withLink hnew, mem_append, mem_singleton] at hid
    rcases hid with hold | rfl
    · exact Nat.lt_of_lt_of_le (sound.linkCodes id hold) hle
    · exact lt
  case linked =>
    intro other hother
    rcases draft.graph.mem_values_withLink hnew hother with hold | rfl
    · exact (sound.linked other hold).later_of_eq later rfl
    · exact linked.later_of_eq later rfl
  case ordered =>
    intro other hother hdone
    rcases draft.graph.mem_values_withLink hnew hother with hold | rfl
    · exact sound.ordered other hold hdone
    · exact absurd hdone opened
  case single =>
    intro id node port hnode hport hmulti
    refine draft.graph.length_linksTo_withLink hnew (sound.single hnode hport hmulti) hmulti fun hto => ?_
    -- A port that takes one link was free before.
    obtain ⟨_, target, _, input, _, htarget, _, hinput, _, _, _, hfree, _⟩ := (draft.graph.checkLink_eq_ok).mp check
    obtain ⟨hmem, hid⟩ := Node.port?_eq_some hinput
    obtain ⟨_, _, rfl⟩ :=
      sound.eq_of_mem_ports hnode htarget (mem_append_left _ hport) hmem (hto.symm.trans hid.symm)
    exact hfree

theorem close {id : NodeId} {node : Node} (found : draft.graph.node? id = some node)
    (opened : id ∉ draft.done) (inner : node.role.isBoundary = false)
    (complete : draft.Complete rules id node) :
    Sound rules { draft with done := draft.done ++ [id] } := by
  have later := later_close draft id
  refine { sound with
    nodup := ?nodup, present := ?present, linked := ?linked, ordered := ?ordered, complete := ?complete
    source := sound.source_later later, sink := ?sink }
  case nodup =>
    refine nodup_append.mpr ⟨sound.nodup, nodup_singleton id, fun a ha b hb hab => ?_⟩
    rw [mem_singleton] at hb
    exact opened (hb ▸ hab ▸ ha)
  case present =>
    intro other hother
    rcases mem_append.mp hother with hold | hnew
    · exact sound.present other hold
    · rw [mem_singleton.mp hnew]
      exact ⟨node, found⟩
  case linked => exact fun link hlink => (sound.linked link hlink).later_of_eq later rfl
  case ordered =>
    intro link hlink hdone
    have hfrom := (sound.linked link hlink).ready
    change (draft.done ++ [id]).idxOf link.fromNode < (draft.done ++ [id]).idxOf link.toNode
    rw [idxOf_append_of_mem hfrom]
    rcases mem_append.mp hdone with hold | hnew
    · rw [idxOf_append_of_mem hold]
      exact sound.ordered link hlink hold
    · rw [mem_singleton.mp hnew, idxOf_append_of_notMem opened]
      exact Nat.lt_of_lt_of_le (idxOf_lt_length_of_mem hfrom) (Nat.le_add_right _ _)
  case complete =>
    intro other hother
    rcases mem_append.mp hother with hold | hnew
    · exact sound.complete_later later other hold
    · rw [mem_singleton.mp hnew]
      exact Or.inr ⟨node, found, complete.later later (by rw [found]; rfl)⟩
  case sink =>
    obtain ⟨hdone, hreads, old, hold, hrole, hrest⟩ := sound.sink
    refine ⟨?_, hreads, old, hold, hrole, hrest⟩
    intro hmem
    rcases mem_append.mp hmem with h | h
    · exact hdone h
    · rw [mem_singleton.mp h, found, Option.some.injEq] at hold
      rw [hold, hrole] at inner
      cases inner

theorem output {next : Nat}
    (le : draft.next ≤ port.id.code) (lt : port.id.code < next) (form : port.toSocket = entry.socket .input) :
    Sound rules { draft with graph := draft.graph.withOutput draft.sink entry port, next } := by
  have later := @later_output port entry rules draft sound next le lt
  have hle : draft.next ≤ next := Nat.le_trans le (Nat.le_of_lt lt)
  have unused := sound.unused le
  obtain ⟨hopened, hreads, sink, hsink, hsinkRole, houtputs, hsockets⟩ := sound.sink
  -- The sink has one port more, all other nodes are as they were.
  have look : ∀ key, (draft.graph.withOutput draft.sink entry port).node? key =
      if key = draft.sink then some { sink with inputs := sink.inputs ++ [port] } else draft.graph.node? key := by
    intro key
    rw [Graph.node?_withOutput]
    split
    next heq =>
      rw [heq, hsink]
      rfl
    next => rfl
  have hids : ({ sink with inputs := sink.inputs ++ [port] } : Node).ports.map Port.id =
      sink.ports.map Port.id ++ [port.id] := by
    simp [Node.ports, houtputs]
  have numbered : (draft.graph.withOutput draft.sink entry port).Numbered next := by
    have hkeyed := sound.keyed hsink
    have hid : ({ sink with inputs := sink.inputs ++ [port] } : Node).id = draft.sink := hkeyed
    refine sound.toNumbered.write hle hid (Nat.lt_of_lt_of_le (sound.codes hsink).1 hle) ?_ ?_ look
    · rw [hids, nodup_append]
      refine ⟨sound.distinct hsink, nodup_singleton _, fun a ha b hb hab => ?_⟩
      exact unused.port _ sink hsink (mem_singleton.mp hb ▸ hab ▸ ha)
    · intro id hid
      rw [hids, mem_append, mem_singleton] at hid
      rcases hid with hid | rfl
      · obtain ⟨old, hold, rfl⟩ := mem_map.mp hid
        exact ⟨Nat.lt_of_lt_of_le ((sound.codes hsink).2 old hold) hle, fun key other hother hmem =>
          sound.owner hother hsink _ hmem hid⟩
      · exact ⟨lt, fun key other hother hmem => absurd hmem (unused.port key other hother)⟩
  refine ⟨numbered, fun id hid => Nat.lt_of_lt_of_le (sound.linkCodes id hid) hle, ?shaped, sound.nodup,
    sound.present_later later, ?linked, sound.ordered, ?single, sound.complete_later later, sound.source_later later,
    ?sinkCase, ?boundary⟩
  case shaped =>
    intro id new hnew hrole
    rcases Graph.node?_cases look hnew with ⟨rfl, rfl⟩ | ⟨_, h⟩
    · rw [hsinkRole] at hrole
      cases hrole
    · exact sound.shaped h hrole
  case linked =>
    intro link hlink
    have hlinked := sound.linked link hlink
    obtain ⟨old, p, hold, hp, hid, henabled, _⟩ := hlinked.finish
    by_cases hto : link.toNode = draft.sink
    · rw [hto, hsink, Option.some.injEq] at hold
      subst hold
      refine hlinked.later later ⟨_, p, (look _).trans (if_pos hto), mem_append_left _ hp, hid, henabled,
        fun hrole => ?_⟩
      rw [hsinkRole] at hrole
      cases hrole
    · exact hlinked.later_of_eq later ((look _).trans (if_neg hto))
  case single =>
    intro id new p hnew hp hmulti
    rcases Graph.node?_cases look hnew with ⟨rfl, rfl⟩ | ⟨_, h⟩
    · rcases mem_append.mp hp with h | h
      · exact sound.single hsink h hmulti
      · rw [mem_singleton.mp h]
        exact Nat.le_trans (Nat.le_of_eq (congrArg length (sound.linksTo_eq_nil unused))) (Nat.zero_le _)
    · exact sound.single h hp hmulti
  case sinkCase =>
    refine ⟨hopened, hreads, _, (look _).trans (if_pos rfl), hsinkRole, houtputs, ?_⟩
    simp only [Graph.withOutput, map_append, map_cons, map_nil, hsockets, form]
  case boundary =>
    intro id new hnew hrole
    rcases Graph.node?_cases look hnew with ⟨rfl, rfl⟩ | ⟨_, h⟩
    · exact Or.inr rfl
    · exact sound.boundary h hrole

end

end Sound

/-! ## Runs -/

/-- Completed nodes, old links and what is known stay. -/
theorem Step.later (step : Step rules draft draft') (sound : draft.Sound rules) : Later draft draft' := by
  cases step with
  | skip le => exact later_skip le
  | add made le unused inner allowed => exact later_add sound le (unused _ mem_cons_self)
  | zone le entryMade entryUnused entryInner entryAllowed exitMade exitUnused =>
    exact (later_add sound le (entryUnused _ mem_cons_self)).trans (later_add
      (sound.add entryMade le entryUnused entryInner entryAllowed) (Nat.le_refl _) (exitUnused _ mem_cons_self))
  | revise found opened => exact later_revise found opened
  | link le lt => exact later_link sound le lt
  | close => exact later_close draft _
  | output le lt => exact later_output sound le lt

theorem Step.sound (step : Step rules draft draft') (sound : draft.Sound rules) : draft'.Sound rules := by
  cases step with
  | skip le => exact sound.skip le
  | add made le unused inner allowed => exact sound.add made le unused inner allowed
  | zone le entryMade entryUnused entryInner entryAllowed exitMade exitUnused exitInner exitAllowed =>
    exact (sound.add entryMade le entryUnused entryInner entryAllowed).add
      exitMade (Nat.le_refl _) exitUnused exitInner
      exitAllowed
  | revise found opened inner shape ports linked => exact sound.revise found opened inner shape ports linked
  | link le lt check opened linked => exact sound.link le lt check opened linked
  | close found opened inner complete => exact sound.close found opened inner complete
  | output le lt plain form => exact sound.output le lt form

theorem Steps.sound (steps : Steps rules draft draft') (sound : draft.Sound rules) : draft'.Sound rules := by
  induction steps with
  | refl => exact sound
  | tail _ step ih => exact step.sound ih

theorem Steps.later (steps : Steps rules draft draft') (sound : draft.Sound rules) : Later draft draft' := by
  induction steps with
  | refl => exact Later.refl draft
  | tail before step ih => exact ih.trans (step.later (Steps.sound before sound))

end Draft

end NodeScript
