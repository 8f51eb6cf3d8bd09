import NodeScript.Graph.Layout
import NodeScript.Proofs.Graph.Search

/-!
# Sound graphs

In a sound graph every link fits the ports that it joins, and the nodes have an order. A layout
moves nodes and changes nothing else.
-/

namespace NodeScript

namespace Graph

variable {graph : Graph} {link : Link} {graph' : Graph}

/-! ## Soundness -/

/-- A link from an enabled output to an enabled input of a type it connects to. -/
def Joins (graph : Graph) (link : Link) : Prop :=
  ∃ source target output input, graph.node? link.fromNode = some source ∧ graph.node? link.toNode = some target ∧
    output ∈ source.outputs ∧ output.id = link.fromPort ∧ output.direction = .output ∧ output.enabled = true ∧
    input ∈ target.inputs ∧ input.id = link.toPort ∧ input.direction = .input ∧ input.enabled = true ∧
    output.type.connectsTo input.type = true

/-- Every link joins an enabled output to an enabled input of a type it connects to, and the links
form no cycle. -/
structure IsSound (graph : Graph) : Prop where
  joins : ∀ link ∈ graph.links.values, graph.Joins link
  acyclic : ∀ id, ¬ Relation.TransGen graph.Feeds id id
  ordered : graph.order?.isSome = true

/-- Links look at the ports of their ends only. -/
theorem Joins.congr (joins : graph.Joins link)
    (source : ∀ {node}, graph.node? link.fromNode = some node → ∃ node', graph'.node? link.fromNode = some node' ∧
      ∀ port ∈ node.outputs, port ∈ node'.outputs)
    (target : ∀ {node port}, graph.node? link.toNode = some node → port ∈ node.inputs → port.id = link.toPort →
      ∃ node', graph'.node? link.toNode = some node' ∧ port ∈ node'.inputs) : graph'.Joins link := by
  obtain ⟨start, finish, output, input, hstart, hfinish, houtput, hid, hout, henabled, hinput, hid', hin, henabled',
    hconnects⟩ := joins
  obtain ⟨start', hstart', hsub⟩ := source hstart
  obtain ⟨finish', hfinish', hinput'⟩ := target hfinish hinput hid'
  exact ⟨start', finish', output, input, hstart', hfinish',
    hsub output houtput, hid, hout, henabled, hinput', hid', hin,
    henabled', hconnects⟩

/-! ## Layouts -/

/-- The graph with a node at another place. -/
def move (graph : Graph) (id : NodeId) (position : Single × Single) : Graph :=
  graph.updateNode id fun node => { node with position }

theorem node?_move (graph : Graph) (id : NodeId) (position : Single × Single) (key : NodeId) :
    (graph.move id position).node? key =
      (graph.node? key).map fun node => { node with position := if key = id then position else node.position } := by
  rw [node?, move, updateNode, OrderedMap.get?_modify, ← node?]
  split
  · rfl
  · exact Option.map_id'.symm

theorem exists_node?_move {key : NodeId} {node : Node} (h : graph.node? key = some node) (id : NodeId)
    (position : Single × Single) :
    ∃ place, (graph.move id position).node? key = some { node with position := place } := by
  rw [node?_move, h]
  exact ⟨_, rfl⟩

theorem Joins.move (joins : graph.Joins link) (id : NodeId) (position : Single × Single) :
    (graph.move id position).Joins link := by
  refine joins.congr (fun {node} hnode => ?_) (fun {node port} hnode hport _ => ?_)
  · obtain ⟨place, hnode'⟩ := exists_node?_move hnode id position
    exact ⟨_, hnode', fun port hport => hport⟩
  · obtain ⟨place, hnode'⟩ := exists_node?_move hnode id position
    exact ⟨_, hnode', hport⟩

/-- A layout moves nodes and does nothing else: what holds of a graph wherever its nodes are holds
of its layout. -/
theorem arrange_induction {P : Graph → Prop} {options : LayoutOptions}
    (h : graph.arrange options = .ok graph') (start : P graph)
    (move : ∀ {graph : Graph} (id : NodeId) (position : Single × Single), P graph → P (graph.move id position)) :
    P graph' := by
  have hfold : ∀ (placed : List (NodeId × Single × Single)) {graph : Graph}, P graph →
      P (placed.foldl (fun graph place => graph.move place.1 place.2) graph) := by
    intro placed
    induction placed with
    | nil => exact fun start => start
    | cons first rest ih => exact fun start => ih (move first.1 first.2 start)
  unfold Graph.arrange at h
  split at h
  · cases hplaces : graph.places options graph.columns 0 with
    | error e =>
      rw [hplaces] at h
      cases h
    | ok placed =>
      rw [hplaces] at h
      cases h
      exact hfold placed start
  · cases h

end Graph

end NodeScript
