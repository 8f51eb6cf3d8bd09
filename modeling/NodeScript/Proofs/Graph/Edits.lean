import Mathlib.Data.List.Pairwise
import NodeScript.Graph.Edit
import NodeScript.Proofs.Build.Run
import NodeScript.Proofs.Graph.Boundary

/-!
# Links under edits

Whatever edits a graph goes through, its links join an output of one node to an input of another,
and an input takes one link unless it takes any number. Links also keep joining types that connect
as long as no input of the interface is replaced by one of another type.
-/

namespace NodeScript

open List

/-! ## Identities that are kept or drawn -/

/-- Some of the identities are kept, and the others were drawn. -/
def Renews (lo hi : Nat) (ids ids' : List Identity) : Prop :=
  ∃ kept drawn, ids'.Perm (kept ++ drawn) ∧ kept.Sublist ids ∧ Supply.Draws lo hi drawn

namespace Renews

variable {lo mid hi : Nat} {ids ids' others others' : List Identity}

theorem of_sublist (le : lo ≤ hi) (h : ids'.Sublist ids) : Renews lo hi ids ids' :=
  ⟨ids', [], by simp, h, le, .nil, by simp⟩

theorem append (first : Renews lo mid ids ids') (second : Renews mid hi others others') :
    Renews lo hi (ids ++ others) (ids' ++ others') := by
  obtain ⟨kept, drawn, perm, sub, draws⟩ := first
  obtain ⟨kept', drawn', perm', sub', draws'⟩ := second
  refine ⟨kept ++ kept', drawn ++ drawn', ?_, sub.append sub', draws.append draws'⟩
  calc (ids' ++ others').Perm ((kept ++ drawn) ++ (kept' ++ drawn')) := perm.append perm'
    _ = kept ++ (drawn ++ (kept' ++ drawn')) := append_assoc _ _ _
    _ |>.Perm (kept ++ (kept' ++ (drawn ++ drawn'))) := by
        refine Perm.append_left kept ?_
        rw [← append_assoc, ← append_assoc]
        exact perm_append_comm.append_right drawn'
    _ = (kept ++ kept') ++ (drawn ++ drawn') := (append_assoc _ _ _).symm

/-- What is kept differs from what was drawn later. -/
theorem nodup (h : Renews lo hi ids ids') (distinct : ids.Nodup) (codes : ∀ id ∈ ids, id.code < lo) :
    ids'.Nodup := by
  obtain ⟨kept, drawn, perm, sub, draws⟩ := h
  refine perm.nodup_iff.mpr (nodup_append.mpr ⟨distinct.sublist sub, draws.nodup, fun a ha b hb hab => ?_⟩)
  have hlt := codes a (sub.subset ha)
  have hle := (draws.range b hb).1
  rw [hab] at hlt
  omega

theorem mem (h : Renews lo hi ids ids') {id : Identity} (hid : id ∈ ids') :
    id ∈ ids ∨ lo ≤ id.code ∧ id.code < hi := by
  obtain ⟨kept, drawn, perm, sub, draws⟩ := h
  rcases mem_append.mp (perm.mem_iff.mp hid) with hkept | hdrawn
  · exact Or.inl (sub.subset hkept)
  · exact Or.inr (draws.range id hdrawn)

theorem le (h : Renews lo hi ids ids') : lo ≤ hi := by
  obtain ⟨_, _, _, _, draws⟩ := h
  exact draws.le

theorem code_lt (h : Renews lo hi ids ids') (codes : ∀ id ∈ ids, id.code < lo) : ∀ id ∈ ids', id.code < hi := by
  intro id hid
  rcases h.mem hid with hkept | hdrawn
  · exact Nat.lt_of_lt_of_le (codes id hkept) h.le
  · exact hdrawn.2

/-- What was drawn earlier and renewed since has been drawn. -/
theorem draws (h : Renews mid hi ids ids') (earlier : Supply.Draws lo mid ids) : Supply.Draws lo hi ids' := by
  have codes : ∀ id ∈ ids, id.code < mid := fun id hid => (earlier.range id hid).2
  refine ⟨Nat.le_trans earlier.le h.le, h.nodup earlier.nodup codes, fun id hid => ⟨?_, h.code_lt codes id hid⟩⟩
  rcases h.mem hid with hkept | hdrawn
  · exact (earlier.range id hkept).1
  · exact Nat.le_trans earlier.le hdrawn.1

end Renews

/-! ## Links and their ends -/

def Node.portIds (node : Node) : List PortId := node.ports.map Port.id

theorem Node.draws_ofKind (kind : NodeKind) (s : Supply) :
    Supply.Draws s.next (ofKind kind s).2.next ((ofKind kind s).1.id :: (ofKind kind s).1.portIds) := by
  obtain ⟨id, inputs, outputs, _, _, hdraws, heq⟩ := exists_ofKind kind s
  rw [heq]
  simpa only [portIds, ports, fresh, refresh, map_append, map_id_refreshPort] using hdraws

/-- A node with a further input and a further output. -/
def Node.addPorts (node : Node) (input output : Port) : Node :=
  { node with inputs := node.inputs ++ [input], outputs := node.outputs ++ [output] }

theorem Node.renews_addPorts (node : Node) {lo hi : Nat} {input output : Port}
    (draws : Supply.Draws lo hi [input.id, output.id]) :
    Renews lo hi node.portIds (node.addPorts input output).portIds := by
  refine ⟨node.portIds, [input.id, output.id], ?_, Sublist.refl _, draws⟩
  simp only [Node.portIds, Node.ports, Node.addPorts, map_append, map_cons, map_nil, append_assoc]
  refine Perm.append_left _ ?_
  rw [singleton_append]
  exact (perm_middle (a := input.id)).symm

namespace Graph

variable {graph : Graph}

def portIds (graph : Graph) : List PortId := graph.nodes.values.flatMap Node.portIds

/-- The ports that a link joins. -/
structure Ends (graph : Graph) (link : Link) (output input : Port) : Prop where
  source : ∃ node, graph.node? link.fromNode = some node ∧ output ∈ node.ports ∧ output.id = link.fromPort
  target : ∃ node, graph.node? link.toNode = some node ∧ input ∈ node.ports ∧ input.id = link.toPort

/-- Links run from outputs to inputs of other nodes, and most inputs take one link at most. -/
structure WellLinked (graph : Graph) : Prop where
  joins : ∀ link ∈ graph.links.values, link.fromNode ≠ link.toNode ∧
    ∃ output input, graph.Ends link output input ∧ output.direction = .output ∧ input.direction = .input
  single : ∀ {id node port}, graph.node? id = some node → port ∈ node.ports → port.direction = .input →
    port.multiInput = false → (graph.linksTo port.id).length ≤ 1

/-- Links join types that connect. -/
def WellTyped (graph : Graph) : Prop :=
  ∀ link ∈ graph.links.values, ∃ output input, graph.Ends link output input ∧
    output.type.connectsTo input.type = true

/-- The boundary ports of a node show the interface. -/
structure Shows (interface : Interface) (node : Node) : Prop where
  inputs : node.role = .groupInput →
    node.outputs.map Port.toSocket = interface.inputs.map fun entry => entry.socket .output
  outputs : node.role = .groupOutput →
    node.inputs.map Port.toSocket = interface.outputs.map fun entry => entry.socket .input

/-- What every history of a graph keeps, with codes below `next` in use. -/
structure Tended (graph : Graph) (next : Nat) : Prop extends graph.WellLinked where
  codes : ∀ {id node}, graph.node? id = some node → id.code < next
  portCodes : ∀ id ∈ graph.portIds, id.code < next
  linkCodes : ∀ id ∈ graph.links.keys, id.code < next
  distinct : graph.portIds.Nodup
  shows : ∀ {id node}, graph.node? id = some node → Shows graph.interface node
  /-- Both ends of a zone are inside the graph. -/
  paired : ∀ {id node exit}, graph.node? id = some node → node.pairedOutput = some exit →
    node.role.isBoundary = false ∧ ∃ other, graph.node? exit = some other ∧ other.role.isBoundary = false

theorem mem_portIds {id : NodeId} {node : Node} {port : Port} (hnode : graph.node? id = some node)
    (hport : port ∈ node.ports) : port.id ∈ graph.portIds :=
  mem_flatMap.mpr ⟨node, OrderedMap.mem_values_iff.mpr ⟨id, hnode⟩, mem_map_of_mem hport⟩

/-- An identity stands for one port of one node. -/
theorem port_unique (distinct : graph.portIds.Nodup) {id id' : NodeId} {node node' : Node} {port port' : Port}
    (hnode : graph.node? id = some node) (hnode' : graph.node? id' = some node') (hport : port ∈ node.ports)
    (hport' : port' ∈ node'.ports) (h : port.id = port'.id) : id = id' ∧ port = port' := by
  have hflat : (graph.nodes.entries.flatMap fun e => e.2.portIds).Nodup := by
    rwa [portIds, OrderedMap.values, flatMap_map] at distinct
  rw [nodup_flatMap] at hflat
  obtain ⟨hnodup, hpairwise⟩ := hflat
  have hmem := OrderedMap.get?_eq_some_iff.mp hnode
  have hmem' := OrderedMap.get?_eq_some_iff.mp hnode'
  by_cases heq : (id, node) = (id', node')
  · cases heq
    exact ⟨rfl, Node.eq_of_id_eq (hnodup _ hmem) hport hport' h⟩
  · have : Std.Symm (Function.onFun Disjoint fun e : NodeId × Node => e.2.portIds) := 
      ⟨fun _ _ hd _ ha hb => hd hb ha⟩
    have hdisjoint := hpairwise.forall hmem hmem' heq
    exact absurd (h ▸ mem_map_of_mem hport') (hdisjoint (mem_map_of_mem hport))

end Graph

/-- The ports are the same for links, and for their types if asked. -/
structure Port.Alike (typed : Bool) (port port' : Port) : Prop where
  id : port'.id = port.id
  direction : port'.direction = port.direction
  multiInput : port'.multiInput = port.multiInput
  type : typed = true → port'.type = port.type

theorem Port.Alike.refl (typed : Bool) (port : Port) : port.Alike typed port := ⟨rfl, rfl, rfl, fun _ => rfl⟩

namespace Graph

variable {id entry : NodeId} {node node' : Node} {interface : Interface} {name : String} {value : PropertyValue}
  {s : Supply} {type : SocketType} {exit : NodeId} {link : Link}

/-- Ports are kept, dropped with their links, or new. -/
structure Carried (typed : Bool) (next next' : Nat) (graph graph' : Graph) : Prop where
  le : next ≤ next'
  ids : Renews next next' graph.portIds graph'.portIds
  nodes : ∀ {id node'}, graph'.node? id = some node' → ∃ node, graph.node? id = some node ∧
    ∀ port' ∈ node'.ports, (∃ port ∈ node.ports, port.Alike typed port') ∨ next ≤ port'.id.code
  links : graph'.links.entries.Sublist graph.links.entries
  stay : ∀ link ∈ graph'.links.values, ∀ {id node port}, graph.node? id = some node → port ∈ node.ports →
    link.touchesPort port.id = true →
      ∃ node' port', graph'.node? id = some node' ∧ port' ∈ node'.ports ∧ port.Alike typed port'

variable {graph graph' : Graph} {typed : Bool} {next next' : Nat}

namespace Carried

theorem refl (graph : Graph) (typed : Bool) (le : next ≤ next') : Carried typed next next' graph graph where
  le := le
  ids := Renews.of_sublist le (Sublist.refl _)
  nodes := fun {_ node} hnode => ⟨node, hnode, fun port hport => Or.inl ⟨port, hport, .refl typed port⟩⟩
  links := Sublist.refl _
  stay := fun _ _ {_ node port} hnode hport _ => ⟨node, port, hnode, hport, .refl typed port⟩

theorem values (carried : Carried typed next next' graph graph') :
    graph'.links.values.Sublist graph.links.values := carried.links.map _

/-- The ends of a link that stays are alike. -/
theorem ends (carried : Carried typed next next' graph graph') (hlink : link ∈ graph'.links.values)
    {output input : Port} (h : graph.Ends link output input) :
    ∃ output' input', graph'.Ends link output' input' ∧ output.Alike typed output' ∧ input.Alike typed input' := by
  obtain ⟨⟨source, hsource, houtput, hfrom⟩, ⟨target, htarget, hinput, hto⟩⟩ := h
  obtain ⟨source', output', hsource', houtput', halike⟩ := carried.stay link hlink hsource houtput (by
    simp [Link.touchesPort, hfrom])
  obtain ⟨target', input', htarget', hinput', halike'⟩ := carried.stay link hlink htarget hinput (by
    simp [Link.touchesPort, hto])
  exact ⟨output', input', ⟨⟨source', hsource', houtput', halike.id.trans hfrom⟩,
    ⟨target', htarget', hinput', halike'.id.trans hto⟩⟩, halike, halike'⟩

end Carried

/-- A port with a new identity has no links. -/
theorem Tended.linksTo_eq_nil (tended : graph.Tended next) {port : PortId} (h : next ≤ port.code) :
    graph.linksTo port = [] := by
  refine filter_eq_nil_iff.mpr fun link hlink => ?_
  obtain ⟨_, output, input, ⟨_, ⟨target, htarget, hinput, hto⟩⟩, _⟩ := tended.joins link hlink
  simp only [decide_eq_true_eq]
  intro heq
  have hcode := tended.portCodes _ (mem_portIds htarget hinput)
  rw [hto, heq] at hcode
  omega

theorem Tended.carry (tended : graph.Tended next) (carried : Carried typed next next' graph graph')
    (shows : ∀ {id node}, graph'.node? id = some node → Shows graph'.interface node)
    (paired : ∀ {id node exit}, graph'.node? id = some node → node.pairedOutput = some exit →
      node.role.isBoundary = false ∧ ∃ other, graph'.node? exit = some other ∧ other.role.isBoundary = false) :
    graph'.Tended next' where
  joins := by
    intro link hlink
    obtain ⟨hne, output, input, hends, hout, hin⟩ := tended.joins link (carried.values.subset hlink)
    obtain ⟨output', input', hends', houtput, hinput⟩ := carried.ends hlink hends
    exact ⟨hne, output', input', hends', houtput.direction.trans hout, hinput.direction.trans hin⟩
  single := by
    intro id node' port' hnode' hport' hdirection hmulti
    have hsub : (graph'.linksTo port'.id).Sublist (graph.linksTo port'.id) := carried.values.filter _
    obtain ⟨node, hnode, hports⟩ := carried.nodes hnode'
    rcases hports port' hport' with ⟨port, hport, halike⟩ | hnew
    · refine Nat.le_trans hsub.length_le ?_
      rw [halike.id]
      exact tended.single hnode hport (halike.direction.symm.trans hdirection)
        (halike.multiInput.symm.trans hmulti)
    · have hnil := tended.linksTo_eq_nil hnew
      rw [hnil, sublist_nil] at hsub
      simp [hsub]
  codes := fun hnode => by
    obtain ⟨node, hold, _⟩ := carried.nodes hnode
    exact Nat.lt_of_lt_of_le (tended.codes hold) carried.le
  portCodes := carried.ids.code_lt tended.portCodes
  linkCodes := fun id hid => Nat.lt_of_lt_of_le
    (tended.linkCodes id ((carried.links.map Prod.fst).subset hid)) carried.le
  distinct := carried.ids.nodup tended.distinct tended.portCodes
  shows := shows
  paired := paired

theorem Tended.mono (tended : graph.Tended next) (le : next ≤ next') : graph.Tended next' :=
  tended.carry (.refl graph false le) tended.shows tended.paired

theorem WellTyped.carry (h : graph.WellTyped) (carried : Carried true next next' graph graph') :
    graph'.WellTyped := by
  intro link hlink
  obtain ⟨output, input, hends, hconnects⟩ := h link (carried.values.subset hlink)
  obtain ⟨output', input', hends', houtput, hinput⟩ := carried.ends hlink hends
  refine ⟨output', input', hends', ?_⟩
  rw [houtput.type rfl, hinput.type rfl]
  exact hconnects

/-! ## Changing one node -/

theorem Carried.update (found : graph.node? id = some node) (le : next ≤ next')
    (ids : Renews next next' node.portIds node'.portIds)
    (ports : ∀ port' ∈ node'.ports, (∃ port ∈ node.ports, port.Alike typed port') ∨ next ≤ port'.id.code)
    (stay : ∀ link ∈ graph.links.values, ∀ port ∈ node.ports, link.touchesPort port.id = true →
      ∃ port' ∈ node'.ports, port.Alike typed port') :
    Carried typed next next' graph (graph.updateNode id fun _ => node') where
  le := le
  ids := by
    obtain ⟨before, after, hsplit, hmodify⟩ := OrderedMap.entries_modify found
    have hrenews :=
      ((Renews.of_sublist (Nat.le_refl next) (Sublist.refl (before.flatMap fun e => e.2.portIds))).append
      ids).append (Renews.of_sublist (Nat.le_refl next') (Sublist.refl (after.flatMap fun e => e.2.portIds)))
    simpa [portIds, updateNode, OrderedMap.values, hsplit, hmodify, flatMap_map] using hrenews
  nodes := by
    intro other new hnew
    rw [node?_updateNode] at hnew
    split at hnew
    next heq =>
      subst heq
      rw [found] at hnew
      cases hnew
      exact ⟨node, found, ports⟩
    next => exact ⟨new, hnew, fun port hport => Or.inl ⟨port, hport, .refl typed port⟩⟩
  links := Sublist.refl _
  stay := by
    intro link hlink other old port hold hport htouches
    by_cases heq : other = id
    · subst heq
      rw [found] at hold
      cases hold
      obtain ⟨port', hport', halike⟩ := stay link hlink port hport htouches
      exact ⟨node', port', by rw [node?_updateNode, if_pos rfl, found]; rfl, hport', halike⟩
    · exact ⟨old, port, by rw [node?_updateNode, if_neg heq]; exact hold, hport, .refl typed port⟩

theorem Tended.update (tended : graph.Tended next) (found : graph.node? id = some node)
    (carried : Carried typed next next' graph (graph.updateNode id fun _ => node')) (role : node'.role = node.role)
    (shows : Shows graph.interface node')
    (paired : ∀ exit, node'.pairedOutput = some exit → node.role.isBoundary = false ∧
      ∃ other, graph.node? exit = some other ∧ other.role.isBoundary = false) :
    (graph.updateNode id fun _ => node').Tended next' := by
  have hcases : ∀ {other : NodeId} {new : Node}, (graph.updateNode id fun _ => node').node? other = some new →
      (other = id ∧ new = node') ∨ graph.node? other = some new := by
    intro other new hnew
    rw [node?_updateNode] at hnew
    split at hnew
    next heq =>
      subst heq
      rw [found] at hnew
      exact Or.inl ⟨rfl, (Option.some.inj hnew).symm⟩
    next => exact Or.inr hnew
  have hroles : ∀ {other : NodeId}, (∃ old, graph.node? other = some old ∧ old.role.isBoundary = false) →
      ∃ new, (graph.updateNode id fun _ => node').node? other = some new ∧ new.role.isBoundary = false := by
    rintro other ⟨old, hold, hinner⟩
    rw [node?_updateNode]
    split
    next heq =>
      rw [heq, found, Option.some.injEq] at hold
      exact ⟨node', by rw [heq, found]; rfl, role ▸ hold ▸ hinner⟩
    next => exact ⟨old, hold, hinner⟩
  refine tended.carry carried ?_ ?_
  · intro other new hnew
    rcases hcases hnew with ⟨rfl, rfl⟩ | h
    · exact shows
    · exact tended.shows h
  · intro other new exit hnew hexit
    rcases hcases hnew with ⟨rfl, rfl⟩ | h
    · obtain ⟨hinner, hothers⟩ := paired exit hexit
      exact ⟨role ▸ hinner, hroles hothers⟩
    · obtain ⟨hinner, hothers⟩ := tended.paired h hexit
      exact ⟨hinner, hroles hothers⟩

/-- Removing links changes nothing else. -/
theorem carried_dropLinks (graph : Graph) (ports : List PortId) (typed : Bool) (next : Nat) :
    Carried typed next next graph (graph.dropLinks ports) :=
  { Carried.refl graph typed (Nat.le_refl next) with
    links := filter_sublist
    stay := fun _ _ {_ node port} hnode hport _ => ⟨node, port, hnode, hport, .refl typed port⟩ }

theorem mem_dropLinks (graph : Graph) {ports : List PortId} (h : link ∈ (graph.dropLinks ports).links.values) :
    ∀ port ∈ ports, link.touchesPort port = false := by
  obtain ⟨e, he, rfl⟩ := mem_map.mp h
  have htest := (mem_filter.mp he).2
  simpa using htest

/-! ## Properties and pairs -/

theorem shows_of_inner (inner : node.role.isBoundary = false) : Shows interface node := by
  constructor <;> intro hrole <;> rw [hrole] at inner <;> cases inner

/-- Ports of the interface have no conditions. -/
theorem map_refreshPort_of_shows {ports : List Port} {entries : List Entry} {direction : Direction}
    (h : ports.map Port.toSocket = entries.map fun entry => entry.socket direction)
    (chosen : String → Option String) : ports.map (Node.refreshPort chosen) = ports := by
  refine (map_congr_left fun port hport => ?_).trans (map_id ports)
  have hmem : port.toSocket ∈ entries.map fun entry => entry.socket direction := h ▸ mem_map_of_mem hport
  obtain ⟨entry, _, hentry⟩ := mem_map.mp hmem
  have hwhen : port.enabledWhen = none := by
    rw [← hentry]
    rfl
  simp [Node.refreshPort, hwhen]

theorem Shows.setProperty (h : Shows interface node) (hset : node.setProperty name value = .ok node') :
    Shows interface node' := by
  obtain ⟨property, _, _, rfl⟩ := Node.setProperty_eq_ok.mp hset
  refine ⟨fun hrole => ?_, fun hrole => ?_⟩
  · have houtputs := h.inputs hrole
    exact (congrArg (map Port.toSocket) (map_refreshPort_of_shows houtputs _)).trans houtputs
  · have hinputs := h.outputs hrole
    exact (congrArg (map Port.toSocket) (map_refreshPort_of_shows hinputs _)).trans hinputs

/-- Assigning a property only refreshes the ports. -/
theorem ports_setProperty (hset : node.setProperty name value = .ok node') :
    ∃ chosen, node'.ports = node.ports.map (Node.refreshPort chosen) := by
  obtain ⟨property, _, _, rfl⟩ := Node.setProperty_eq_ok.mp hset
  exact ⟨_, (map_append ..).symm⟩

theorem carried_setProperty (typed : Bool) (next : Nat) (found : graph.node? id = some node)
    (hset : node.setProperty name value = .ok node') :
    Carried typed next next graph (graph.updateNode id fun _ => node') := by
  obtain ⟨chosen, hports⟩ := ports_setProperty hset
  have halike : ∀ port, Port.Alike typed port (Node.refreshPort chosen port) := by
    intro port
    rw [Node.refreshPort_eq]
    exact ⟨rfl, rfl, rfl, fun _ => rfl⟩
  refine Carried.update found (Nat.le_refl next) (Renews.of_sublist (Nat.le_refl next) ?_) ?_ ?_
  · rw [Node.portIds, hports, Node.map_id_refreshPort]
    exact Sublist.refl _
  · intro port' hport'
    rw [hports] at hport'
    obtain ⟨port, hport, rfl⟩ := mem_map.mp hport'
    exact Or.inl ⟨port, hport, halike port⟩
  · intro _ _ port hport _
    refine ⟨Node.refreshPort chosen port, ?_, halike port⟩
    rw [hports]
    exact mem_map_of_mem hport

theorem Tended.setProperty (tended : graph.Tended next) (found : graph.node? id = some node)
    (hset : node.setProperty name value = .ok node') : (graph.updateNode id fun _ => node').Tended next := by
  refine tended.update found (carried_setProperty false next found hset) ?_
    ((tended.shows found).setProperty hset) fun exit hexit => ?_
  · obtain ⟨property, _, _, rfl⟩ := Node.setProperty_eq_ok.mp hset
    rfl
  · obtain ⟨property, _, _, rfl⟩ := Node.setProperty_eq_ok.mp hset
    exact tended.paired found hexit

theorem carried_pair (typed : Bool) (next : Nat) (found : graph.node? id = some node) (exit : NodeId) :
    Carried typed next next graph (graph.updateNode id fun _ => { node with pairedOutput := some exit }) :=
  Carried.update found (Nat.le_refl next) (Renews.of_sublist (Nat.le_refl next) (Sublist.refl _))
    (fun port hport => Or.inl ⟨port, hport, .refl typed port⟩)
    fun _ _ port hport _ => ⟨port, hport, .refl typed port⟩

/-- A pair that is made is a pair of inner nodes. -/
theorem pairZone_eq_ok (h : graph.pairZone entry exit = .ok graph') :
    ∃ node other, graph.node? entry = some node ∧ graph.node? exit = some other ∧
      node.role.isBoundary = false ∧ other.role.isBoundary = false ∧
      graph' = graph.updateNode entry fun _ => { node with pairedOutput := some exit } := by
  unfold pairZone at h
  cases hexit : graph.node? exit with
  | none => simp [hexit] at h
  | some other =>
    cases hentry : graph.node? entry with
    | none => simp [hexit, hentry] at h
    | some node =>
      simp only [hexit, hentry] at h
      split at h
      next hpairs =>
        cases h
        refine ⟨node, other, rfl, rfl, ?_, ?_, updateNode_eq hentry _⟩
        · cases hrole : node.role <;> simp [hrole, Role.pairs] at hpairs <;> rfl
        · cases hrole : node.role <;> cases hrole' : other.role <;>
            simp [hrole, hrole', Role.pairs] at hpairs <;> rfl
      next => cases h

/-! ## Items of zones -/

/-- Removing items that have no links. -/
theorem Tended.withoutItems (tended : graph.Tended next) (id : NodeId)
    (free : ∀ link ∈ graph.links.values, ∀ port ∈ (graph.withoutItems id).2, link.touchesPort port = false) :
    (graph.withoutItems id).1.Tended next ∧ Carried true next next graph (graph.withoutItems id).1 := by
  unfold Graph.withoutItems at free ⊢
  cases found : graph.node? id with
  | none =>
    exact ⟨tended, .refl graph true (Nat.le_refl next)⟩
  | some node =>
    simp only [found] at free ⊢
    rw [updateNode_eq found]
    have hports : ∀ port, (port ∈ node.inputs.filter (fun p => !p.zoneItem) ++
        node.outputs.filter fun p => !p.zoneItem) ↔ port ∈ node.ports ∧ port.zoneItem = false := by
      intro port
      simp only [Node.ports, mem_append, mem_filter, Bool.not_eq_true']
      tauto
    have carried : Carried true next next graph (graph.updateNode id fun _ =>
        { node with
          inputs := node.inputs.filter fun port => !port.zoneItem
          outputs := node.outputs.filter fun port => !port.zoneItem }) := by
      refine Carried.update found (Nat.le_refl next) (Renews.of_sublist (Nat.le_refl next) ?_) ?_ ?_
      · exact (filter_sublist.append filter_sublist).map _
      · intro port hport
        exact Or.inl ⟨port, ((hports port).mp hport).1, .refl true port⟩
      · intro link hlink port hport htouches
        refine ⟨port, (hports port).mpr ⟨hport, ?_⟩, .refl true port⟩
        by_contra hitem
        rw [Bool.not_eq_false] at hitem
        have hfree := free link hlink port.id
          (mem_map_of_mem (mem_filter.mpr ⟨hport, hitem⟩))
        rw [htouches] at hfree
        cases hfree
    -- The ports of the interface are no items.
    have hkept : ∀ {ports : List Port} {entries : List Entry} {direction : Direction},
        ports.map Port.toSocket = entries.map (fun entry => entry.socket direction) →
        ports.filter (fun port => !port.zoneItem) = ports := by
      intro ports entries direction h
      refine filter_eq_self.mpr fun port hport => ?_
      have hmem : port.toSocket ∈ entries.map fun entry => entry.socket direction := h ▸ mem_map_of_mem hport
      obtain ⟨entry, _, hentry⟩ := mem_map.mp hmem
      rw [← hentry]
      rfl
    refine ⟨tended.update found carried rfl ⟨fun hrole => ?_, fun hrole => ?_⟩ fun exit hexit =>
      tended.paired found hexit, carried⟩
    · have h := (tended.shows found).inputs hrole
      exact (congrArg (map Port.toSocket) (hkept h)).trans h
    · have h := (tended.shows found).outputs hrole
      exact (congrArg (map Port.toSocket) (hkept h)).trans h

theorem withoutItems_dropLinks (graph : Graph) (id : NodeId) (ports : List PortId) :
    ((graph.dropLinks ports).withoutItems id).1 = (graph.withoutItems id).1.dropLinks ports := by
  have hnode : (graph.dropLinks ports).node? id = graph.node? id := rfl
  unfold Graph.withoutItems
  rw [hnode]
  cases graph.node? id <;> rfl

theorem snd_withoutItems_dropLinks (graph : Graph) (id : NodeId) (ports : List PortId) :
    ((graph.dropLinks ports).withoutItems id).2 = (graph.withoutItems id).2 := by
  have hnode : (graph.dropLinks ports).node? id = graph.node? id := rfl
  unfold Graph.withoutItems
  rw [hnode]
  cases graph.node? id <;> rfl

/-- The items of both ends go after their links. -/
theorem clearZoneItems_eq_ok (h : graph.clearZoneItems entry = .ok graph') :
    ∃ exit ports, (∀ port ∈ (graph.withoutItems entry).2, port ∈ ports) ∧
      (∀ port ∈ ((graph.withoutItems entry).1.withoutItems exit).2, port ∈ ports) ∧
      graph' = (((graph.dropLinks ports).withoutItems entry).1.withoutItems exit).1 := by
  unfold clearZoneItems at h
  rw [Except.bind_eq_ok] at h
  obtain ⟨exit, _, h⟩ := h
  cases h
  refine ⟨exit, (graph.withoutItems entry).2 ++ ((graph.withoutItems entry).1.withoutItems exit).2,
    fun port hport => mem_append_left _ hport, fun port hport => mem_append_right _ hport, ?_⟩
  change ((graph.withoutItems entry).1.withoutItems exit).1.dropLinks
    ((graph.withoutItems entry).2 ++ ((graph.withoutItems entry).1.withoutItems exit).2) = _
  rw [withoutItems_dropLinks, withoutItems_dropLinks]

theorem links_withoutItems (graph : Graph) (id : NodeId) : (graph.withoutItems id).1.links = graph.links := by
  unfold Graph.withoutItems
  cases graph.node? id <;> rfl

theorem Tended.clearZoneItems (tended : graph.Tended next) (h : graph.clearZoneItems entry = .ok graph') :
    graph'.Tended next ∧ (graph.WellTyped → graph'.WellTyped) := by
  obtain ⟨exit, ports, hfirst, hsecond, rfl⟩ := clearZoneItems_eq_ok h
  have carried₀ := carried_dropLinks graph ports true next
  have tended₀ : (graph.dropLinks ports).Tended next := tended.carry carried₀ tended.shows tended.paired
  have hfree : ∀ link ∈ (graph.dropLinks ports).links.values, ∀ port ∈ ports, link.touchesPort port = false :=
    fun link hlink => mem_dropLinks graph hlink
  obtain ⟨tended₁, carried₁⟩ := tended₀.withoutItems entry fun link hlink port hport =>
    hfree link hlink port (hfirst port (snd_withoutItems_dropLinks graph entry ports ▸ hport))
  have hitems : (((graph.dropLinks ports).withoutItems entry).1.withoutItems exit).2 =
      ((graph.withoutItems entry).1.withoutItems exit).2 := by
    rw [withoutItems_dropLinks]
    exact snd_withoutItems_dropLinks _ exit ports
  obtain ⟨tended₂, carried₂⟩ := tended₁.withoutItems exit fun link hlink port hport => by
    rw [links_withoutItems] at hlink
    exact hfree link hlink port (hsecond port (hitems ▸ hport))
  exact ⟨tended₂, fun typed => ((typed.carry carried₀).carry carried₁).carry carried₂⟩

theorem addItemTo_eq_some (h : (graph.addItemTo name type id s).1 = some graph') :
    ∃ node input output, graph.node? id = some node ∧ input.default = none ∧ output.default = none ∧
      Supply.Draws s.next (graph.addItemTo name type id s).2.next [input.id, output.id] ∧
      graph' = graph.updateNode id fun _ => node.addPorts input output := by
  unfold Graph.addItemTo at h ⊢
  cases found : graph.node? id with
  | none =>
    rw [found] at h
    cases h
  | some node =>
    simp only [found] at h ⊢
    cases h
    refine ⟨node, _, _, rfl, ?_, ?_, ?_, updateNode_eq found _⟩
    · rfl
    · rfl
    · exact (Supply.draws_fresh s).append (Supply.draws_fresh _)

/-- What holds of a graph and keeps holding with an item at an end of the zone, and later on, holds
with an item of the zone. -/
theorem addZoneItem_induction {R : Nat → Graph → Prop} (start : R s.next graph)
    (later : ∀ {next next' g}, next ≤ next' → R next g → R next' g)
    (item : ∀ {g g' : Graph} {s : Supply} {exit id}, graph.zoneExit entry = .ok exit →
      id ∈ [entry, exit] → R s.next g →
      (g.addItemTo name type id s).1 = some g' → R (g.addItemTo name type id s).2.next g') :
    R (graph.addZoneItem entry name type s).2.next (graph.addZoneItem entry name type s).1.1 := by
  unfold Graph.addZoneItem
  cases hexit : graph.zoneExit entry with
  | error e => exact start
  | ok exit =>
    dsimp only
    rw [Supply.bind_apply]
    cases hfirst : (graph.addItemTo name type entry s).1 with
    | none => exact later (Supply.climbs_addItemTo graph name type entry s) start
    | some graph₁ =>
      have hgraph₁ := item hexit mem_cons_self start hfirst
      dsimp only
      rw [Supply.bind_apply]
      cases hsecond : (graph₁.addItemTo name type exit (graph.addItemTo name type entry s).2).1 with
      | none => exact later (Supply.climbs_addItemTo graph₁ name type exit _) hgraph₁
      | some graph₂ => exact item hexit (mem_cons_of_mem _ mem_cons_self) hgraph₁ hsecond

theorem Tended.addItemTo (tended : graph.Tended s.next)
    (inner : ∀ node, graph.node? id = some node → node.role.isBoundary = false)
    (h : (graph.addItemTo name type id s).1 = some graph') :
    graph'.Tended (graph.addItemTo name type id s).2.next ∧
      Carried true s.next (graph.addItemTo name type id s).2.next graph graph' := by
  obtain ⟨node, input, output, found, _, _, hdraws, rfl⟩ := addItemTo_eq_some h
  have hports : ∀ port, port ∈ (node.addPorts input output).ports ↔
      port ∈ node.ports ∨ port = input ∨ port = output := by
    intro port
    simp only [Node.ports, Node.addPorts, mem_append, mem_singleton]
    tauto
  have carried : Carried true s.next (graph.addItemTo name type id s).2.next graph _ :=
    Carried.update found hdraws.le (node.renews_addPorts hdraws) (fun port hport => ?_)
      fun _ _ port hport _ => ⟨port, (hports port).mpr (Or.inl hport), .refl true port⟩
  · exact ⟨tended.update found carried rfl (shows_of_inner (inner node found)) fun exit hexit =>
      tended.paired found hexit, carried⟩
  · rcases (hports port).mp hport with hold | rfl | rfl
    · exact Or.inl ⟨port, hold, .refl true port⟩
    · exact Or.inr (hdraws.range _ mem_cons_self).1
    · exact Or.inr (hdraws.range _ (mem_cons_of_mem _ mem_cons_self)).1

/-- Both ends of a zone are inner nodes. -/
theorem Tended.inner_zoneExit (tended : graph.Tended next) (h : graph.zoneExit entry = .ok exit) :
    ∀ id ∈ [entry, exit], ∀ node, graph.node? id = some node → node.role.isBoundary = false := by
  unfold zoneExit at h
  cases found : graph.node? entry with
  | none => simp [found] at h
  | some node =>
    cases hpaired : node.pairedOutput with
    | none => simp [found, hpaired] at h
    | some other =>
      simp only [found, hpaired, Except.ok.injEq] at h
      obtain ⟨hentry, other, hother, hinner⟩ := tended.paired found hpaired
      intro id hid node' hnode'
      simp only [mem_cons, not_mem_nil, or_false] at hid
      rcases hid with rfl | rfl
      · rw [found] at hnode'
        cases hnode'
        exact hentry
      · rw [h, hnode'] at hother
        cases hother
        exact hinner

theorem Tended.addZoneItem (tended : graph.Tended s.next) (entry : NodeId) (name : String) (type : SocketType) :
    (graph.addZoneItem entry name type s).1.1.Tended (graph.addZoneItem entry name type s).2.next ∧
      (graph.WellTyped → (graph.addZoneItem entry name type s).1.1.WellTyped) := by
  refine And.imp_right And.left (addZoneItem_induction (R := fun next g => g.Tended next ∧
    (graph.WellTyped → g.WellTyped) ∧ ∀ exit, graph.zoneExit entry = .ok exit → ∀ id ∈ [entry, exit], ∀ node,
      g.node? id = some node → node.role.isBoundary = false) ?start ?later ?item)
  case start => exact ⟨tended, fun typed => typed, fun _ => tended.inner_zoneExit⟩
  case later => exact fun le h => ⟨h.1.mono le, h.2⟩
  case item =>
    intro g g' s exit id hexit hid ⟨tended, typed, inner⟩ hitem
    obtain ⟨tended', carried⟩ := tended.addItemTo (inner exit hexit id hid) hitem
    refine ⟨tended', fun h => (typed h).carry carried, fun exit' hexit' other hother node' hnode' => ?_⟩
    obtain ⟨node, input, output, found, _, _, _, rfl⟩ := addItemTo_eq_some hitem
    rw [node?_updateNode] at hnode'
    split at hnode'
    · next heq =>
        subst heq
        rw [found] at hnode'
        cases hnode'
        exact inner exit hexit _ hid node found
    · exact inner exit' hexit' other hother node' hnode'

end Graph

end NodeScript
