import NodeScript.Proofs.Graph.Histories

/-!
# Boundary nodes follow the interface

However many source and sink nodes a graph has, after every history each of them shows the
interface. A change of the interface keeps the identity of every boundary port whose position is
still there, and of the links it removes those that touch a port of another position and no others.
-/

namespace NodeScript

open List

/-! ## Boundary ports -/

/-- The entries that a node of a role shows: a source the inputs, a sink the outputs. -/
def Interface.shownBy (interface : Interface) : Role → List Entry
  | .groupInput => interface.inputs
  | .groupOutput => interface.outputs
  | _ => []

namespace Node

/-- The ports that show entries of the interface. -/
def boundaryPorts (node : Node) : List Port :=
  match node.role with
  | .groupInput => node.outputs
  | .groupOutput => node.inputs
  | _ => []

/-- The node with other ports in their place. -/
def withBoundaryPorts (node : Node) (ports : List Port) : Node :=
  match node.role with
  | .groupInput => { node with outputs := ports }
  | .groupOutput => { node with inputs := ports }
  | _ => node

theorem withBoundaryPorts_self (node : Node) : node.withBoundaryPorts node.boundaryPorts = node := by
  unfold withBoundaryPorts boundaryPorts
  split <;> rfl

end Node

namespace Graph

/-- Every boundary node has a port for each entry that it shows, in their order and with their
names, types and defaults. -/
def Mirrors (graph : Graph) : Prop :=
  ∀ id node, graph.node? id = some node →
    node.boundaryPorts.map (fun port => (port.name, port.type, port.default)) =
      (graph.interface.shownBy node.role).map fun entry => (entry.name, entry.type, entry.default)

/-- A boundary port at a position that the interface does not have. -/
def Drops (graph : Graph) (interface : Interface) (portId : PortId) : Prop :=
  ∃ id node position port, graph.node? id = some node ∧ node.boundaryPorts[position]? = some port ∧
    (interface.shownBy node.role).length ≤ position ∧ port.id = portId

/-- The later graph has the same nodes in the same order, and they differ at most in their boundary
ports, of which those at positions that are still there keep their identities. Its links are those
of the earlier graph that touch no boundary port at another position, in their order. -/
structure Realigned (graph graph' : Graph) : Prop where
  order : graph'.nodes.keys = graph.nodes.keys
  nodes : ∀ id node, graph.node? id = some node → ∃ node', graph'.node? id = some node' ∧
    node' = node.withBoundaryPorts node'.boundaryPorts ∧
    ∀ (position : Nat) (port port' : Port), node.boundaryPorts[position]? = some port →
      node'.boundaryPorts[position]? = some port' → port'.id = port.id
  links : graph'.links.entries.Sublist graph.links.entries
  kept : ∀ entry ∈ graph.links.entries, entry ∈ graph'.links.entries ↔
    ∀ portId, graph.Drops graph'.interface portId → entry.2.touchesPort portId = false

end Graph

/-! ## The alignment -/

namespace Boundary

variable {direction : Direction} {entries : List Entry} {ports : List Port} {interface : Interface} {node : Node}
  {s : Supply} {position : Nat} {port port' : Port}

theorem id_of_align (hport : ports[position]? = some port)
    (hport' : (align direction entries ports s).1[position]? = some port') : port'.id = port.id := by
  induction entries generalizing ports position with
  | nil =>
    rw [align_nil] at hport'
    simp at hport'
  | cons entry entries ih =>
    cases ports with
    | nil => simp at hport
    | cons first ports =>
      rw [align_cons_cons] at hport'
      cases position with
      | zero =>
        cases hport
        cases hport'
        rfl
      | succ position =>
        rw [List.getElem?_cons_succ] at hport hport'
        exact ih hport hport'

theorem alignNode_eq_withBoundaryPorts (interface : Interface) (node : Node) (s : Supply) :
    (alignNode interface node s).1 =
      node.withBoundaryPorts (alignNode interface node s).1.boundaryPorts := by
  unfold Node.withBoundaryPorts Node.boundaryPorts
  rw [(role_alignNode interface node s).1, alignNode_eq]
  cases hrole : node.role <;> rfl

theorem id_of_alignNode (hport : node.boundaryPorts[position]? = some port)
    (hport' : (alignNode interface node s).1.boundaryPorts[position]? = some port') : port'.id = port.id := by
  unfold Node.boundaryPorts at hport hport'
  rw [(role_alignNode interface node s).1, alignNode_eq] at hport'
  cases hrole : node.role <;> simp only [hrole] at hport hport'
  case groupInput => exact id_of_align hport hport'
  case groupOutput => exact id_of_align hport hport'
  all_goals simp at hport

theorem mem_surplus {portId : PortId} : portId ∈ surplus interface node ↔ ∃ position port,
    node.boundaryPorts[position]? = some port ∧ (interface.shownBy node.role).length ≤ position ∧
      port.id = portId := by
  have hsurplus : surplus interface node =
      (node.boundaryPorts.drop (interface.shownBy node.role).length).map Port.id := by
    unfold surplus Node.boundaryPorts Interface.shownBy
    cases node.role <;> rfl
  rw [hsurplus, mem_map]
  constructor
  · rintro ⟨port, hport, rfl⟩
    obtain ⟨offset, hoffset⟩ := mem_iff_getElem?.mp hport
    rw [List.getElem?_drop] at hoffset
    exact ⟨_, port, hoffset, Nat.le_add_right _ _, rfl⟩
  · rintro ⟨position, port, hport, hle, rfl⟩
    refine ⟨port, mem_iff_getElem?.mpr ⟨position - (interface.shownBy node.role).length, ?_⟩, rfl⟩
    rwa [List.getElem?_drop, Nat.add_sub_cancel' hle]

end Boundary

namespace Graph

variable {graph : Graph}

theorem Shows.mirrors {interface : Interface} {node : Node} (shows : Shows interface node) :
    node.boundaryPorts.map (fun port => (port.name, port.type, port.default)) =
      (interface.shownBy node.role).map fun entry => (entry.name, entry.type, entry.default) := by
  have hsockets : ∀ {ports : List Port} {entries : List Entry} {direction : Direction},
      ports.map Port.toSocket = entries.map (fun entry => entry.socket direction) →
      ports.map (fun port => (port.name, port.type, port.default)) =
        entries.map fun entry => (entry.name, entry.type, entry.default) := by
    intro ports entries direction h
    have hdata := congrArg (List.map fun socket : Socket => (socket.name, socket.type, socket.default)) h
    rwa [map_map, map_map] at hdata
  unfold Node.boundaryPorts Interface.shownBy
  cases hrole : node.role
  case groupInput => exact hsockets (shows.inputs hrole)
  case groupOutput => exact hsockets (shows.outputs hrole)
  all_goals rfl

theorem Tended.mirrors {next : Nat} (tended : graph.Tended next) : graph.Mirrors :=
  fun _ _ hnode => (tended.shows hnode).mirrors

/-- Whatever the interface becomes, the alignment with it drops the links of ports beyond it. -/
theorem realigned_withInterface (graph : Graph) (interface : Interface) (s : Supply) :
    graph.Realigned (graph.withInterface interface s).1 where
  order := OrderedMap.runEntries_keys _ _ _
  nodes := by
    intro id node hnode
    obtain ⟨s', hnode'⟩ := OrderedMap.get?_mapState_of_get? (f := Boundary.alignNode interface) s hnode
    exact ⟨_, hnode', Boundary.alignNode_eq_withBoundaryPorts interface node s',
      fun _ _ _ hport hport' => Boundary.id_of_alignNode hport hport'⟩
  links := filter_sublist
  kept := by
    intro entry hentry
    have hkept : entry ∈ (graph.withInterface interface s).1.links.entries ↔
        ∀ portId ∈ graph.nodes.values.flatMap (Boundary.surplus interface), entry.2.touchesPort portId = false := by
      change entry ∈ graph.links.entries.filter _ ↔ _
      rw [mem_filter, and_iff_right hentry, Bool.not_eq_true', any_eq_false]
      simp only [Bool.not_eq_true]
    rw [hkept]
    refine forall_congr' fun portId => imp_congr_left ?_
    rw [mem_flatMap]
    constructor
    · rintro ⟨node, hnode, hsurplus⟩
      obtain ⟨id, hid⟩ := OrderedMap.mem_values_iff.mp hnode
      obtain ⟨position, port, hport⟩ := Boundary.mem_surplus.mp hsurplus
      exact ⟨id, node, position, port, hid, hport⟩
    · rintro ⟨id, node, position, port, hid, hport⟩
      exact ⟨node, OrderedMap.mem_values_iff.mpr ⟨id, hid⟩, Boundary.mem_surplus.mpr ⟨position, port, hport⟩⟩

/-- No port of a graph that mirrors its interface is beyond it. -/
theorem Mirrors.realigned (mirrors : graph.Mirrors) : graph.Realigned graph where
  order := rfl
  nodes := by
    intro id node hnode
    refine ⟨node, hnode, node.withBoundaryPorts_self.symm, fun position port port' hport hport' => ?_⟩
    rw [hport] at hport'
    cases hport'
    rfl
  links := List.Sublist.refl _
  kept := by
    refine fun entry hentry => iff_of_true hentry ?_
    rintro portId ⟨id, node, position, port, hnode, hport, hle, _⟩
    have hlength : node.boundaryPorts.length = (graph.interface.shownBy node.role).length := by
      simpa using congrArg List.length (mirrors id node hnode)
    have hlt := (List.getElem?_eq_some_iff.mp hport).1
    omega

end Graph

/-! ## Changes of the interface -/

namespace Edit

open NodeScript.Graph

/-- The edit changes the interface from one to the other. Edits of nodes and links do not change it
in this way. -/
def Reshapes (interface interface' : Interface) : Edit → Prop
  | .addInput declaration => interface'.outputs = interface.outputs ∧
      ∃ id, interface'.inputs = interface.inputs ++ [{ declaration with id }]
  | .replaceInput position declaration => interface'.outputs = interface.outputs ∧
      ∃ id, interface'.inputs = interface.inputs.set position { declaration with id }
  | .truncateInputs size => interface'.outputs = interface.outputs ∧
      interface'.inputs = interface.inputs.take size
  | .addOutput declaration => interface'.inputs = interface.inputs ∧
      ∃ id, interface'.outputs = interface.outputs ++ [{ declaration with id }]
  | .clearOutputs => interface'.inputs = interface.inputs ∧ interface'.outputs = []
  | .align => interface' = interface
  | _ => False

/-- Whether the edit is one of the interface. -/
def isOfInterface : Edit → Bool
  | .addInput _ | .replaceInput .. | .truncateInputs _ | .addOutput _ | .clearOutputs | .align => true
  | _ => false

theorem realigned_apply {edit : Edit} {graph : Graph} (mirrors : graph.Mirrors) (s : Supply)
    (h : edit.isOfInterface = true) :
    edit.Reshapes graph.interface (edit.apply graph s).1.1.interface ∧ graph.Realigned (edit.apply graph s).1.1 := by
  cases edit with
  | addInput declaration => exact ⟨⟨rfl, _, rfl⟩, realigned_withInterface graph _ _⟩
  | replaceInput position declaration =>
    rw [Edit.apply, Supply.bind_apply, Supply.bind_apply]
    unfold Graph.replaceInput
    split
    · exact ⟨⟨rfl, _, rfl⟩, realigned_withInterface graph _ _⟩
    · next hout =>
        exact ⟨⟨rfl, ⟨0⟩, (set_eq_of_length_le (Nat.not_lt.mp hout)).symm⟩, mirrors.realigned⟩
  | truncateInputs size => exact ⟨⟨rfl, rfl⟩, realigned_withInterface graph _ _⟩
  | addOutput declaration => exact ⟨⟨rfl, _, rfl⟩, realigned_withInterface graph _ _⟩
  | clearOutputs => exact ⟨⟨rfl, rfl⟩, realigned_withInterface graph _ _⟩
  | align => exact ⟨rfl, realigned_withInterface graph graph.interface s⟩
  | _ => cases h

/-- Whatever edits are made of a new graph, and whether they succeed or fail, its boundary nodes
mirror its interface. A further edit of the interface keeps the identities of the boundary ports
whose positions are still there, and of the links it removes exactly those of the others. -/
theorem boundary_follows_interface (edits : List Edit) (name : String) (s : Supply) :
    let graph := (applyAll edits { name } s).1
    let supply := (applyAll edits { name } s).2
    graph.Mirrors ∧ ∀ edit : Edit, edit.isOfInterface = true →
      edit.Reshapes graph.interface (edit.apply graph supply).1.1.interface ∧
        graph.Realigned (edit.apply graph supply).1.1 := by
  intro graph supply
  have mirrors : graph.Mirrors := (tended_applyAll edits (tended_clear { name } s.next)).1.mirrors
  exact ⟨mirrors, fun _ => realigned_apply mirrors supply⟩

/-- Two sources show two inputs; the first feeds a node from the second input, the second another
node from the first. -/
def twoSources : List Edit :=
  let source : NodeKind := { id := groupInputKind, name := "Group Input", category := .input, role := .groupInput }
  let reader : NodeKind :=
    { id := "GeometryNodeTransform", name := "Transform Geometry", category := .geometry
      inputs := [{ Socket.input "Geometry" .geometry with id := ⟨0⟩ }] }
  [.addNode source, .addNode source, .addNode reader, .addNode reader,
    .addInput { name := "Near", type := .geometry }, .addInput { name := "Far", type := .geometry },
    .connect ⟨0⟩ ⟨10⟩ ⟨2⟩ ⟨3⟩, .connect ⟨1⟩ ⟨8⟩ ⟨4⟩ ⟨5⟩]

/-- Without the second input the first of the two links is gone. -/
theorem boundary_follows_interface_twoSources :
    let graph := (applyAll twoSources { name := "G" } { next := 0 }).1
    let supply := (applyAll twoSources { name := "G" } { next := 0 }).2
    let edit := Edit.truncateInputs 1
    edit.isOfInterface = true ∧ graph.links.keys = [⟨12⟩, ⟨13⟩] ∧
      (edit.apply graph supply).1.1.links.keys = [⟨13⟩] ∧ graph.Mirrors ∧
      (edit.Reshapes graph.interface (edit.apply graph supply).1.1.interface ∧
        graph.Realigned (edit.apply graph supply).1.1) := by
  refine ⟨rfl, by decide +kernel, by decide +kernel, ?_⟩
  have follows := boundary_follows_interface twoSources "G" { next := 0 }
  exact ⟨follows.1, follows.2 (.truncateInputs 1) rfl⟩

end Edit

end NodeScript
