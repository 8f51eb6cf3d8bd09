import NodeScript.Proofs.Build.Runs
import NodeScript.Proofs.Catalog.Kinds

/-!
# What steps leave alone

Binding values to an input of an open node changes that input at most. A construction that only adds
nodes leaves everything that was there undisturbed.
-/

namespace NodeScript

open List

/-- The node has changed at most the defaults of some inputs. -/
structure Node.Rebound (ports : PortId → Prop) (node node' : Node) : Prop where
  samePorts : node.SamePorts node'
  role : node'.role = node.role
  properties : node'.properties = node.properties
  inputs : ∀ port ∈ node.inputs, ¬ ports port.id → port ∈ node'.inputs

namespace Node.Rebound

variable {ports ports' : PortId → Prop} {node node' node'' : Node}

theorem refl (ports : PortId → Prop) (node : Node) : node.Rebound ports node :=
  ⟨⟨rfl, rfl, rfl, rfl⟩, rfl, rfl, fun _ h _ => h⟩

theorem trans (first : node.Rebound ports node') (second : node'.Rebound ports node'') :
    node.Rebound ports node'' where
  samePorts := ⟨second.samePorts.id.trans first.samePorts.id,
    second.samePorts.inputs.trans first.samePorts.inputs, second.samePorts.outputs.trans first.samePorts.outputs,
    second.samePorts.pairedOutput.trans first.samePorts.pairedOutput⟩
  role := second.role.trans first.role
  properties := second.properties.trans first.properties
  inputs := fun port hport hfree => second.inputs port (first.inputs port hport hfree) hfree

theorem mono (h : node.Rebound ports node') (imp : ∀ id, ports id → ports' id) : node.Rebound ports' node' :=
  { h with inputs := fun port hport hfree => h.inputs port hport fun hports => hfree (imp _ hports) }

theorem updatePort (node : Node) (portId : PortId) (value : Literal) :
    node.Rebound (· = portId) (node.updatePort portId fun port => { port with default := some value }) where
  samePorts := node.samePorts_updatePort portId value
  role := by unfold Node.updatePort; split <;> rfl
  properties := by unfold Node.updatePort; split <;> rfl
  inputs := by
    intro port hport hne
    unfold Node.updatePort
    split
    · exact mem_updateFirst_of_not hport (by simpa using hne)
    · exact hport

end Node.Rebound

namespace Draft

variable {touched : NodeId → Prop} {ports : PortId → Prop} {node : Node}

/-- Of what was there only some nodes have changed, and at most some of their inputs. -/
structure Frame (touched : NodeId → Prop) (ports : PortId → Prop) (draft draft' : Draft) : Prop where
  later : Later draft draft'
  opened : ∀ id, (draft.graph.node? id).isSome = true → id ∈ draft'.done → id ∈ draft.done
  nodes : ∀ id node, draft.graph.node? id = some node → ∃ node', draft'.graph.node? id = some node' ∧
    node.Rebound ports node' ∧ (¬ touched id → node' = node)
  links : ∀ port, port.code < draft.next → ¬ ports port → draft'.graph.linksTo port = draft.graph.linksTo port

/-- Nothing that was there has changed. -/
abbrev Undisturbed (draft draft' : Draft) : Prop := Frame (fun _ => False) (fun _ => False) draft draft'

namespace Frame

variable {touched : NodeId → Prop} {ports ports' : PortId → Prop} {a b c : Draft} {node : Node}

theorem refl (draft : Draft) : Frame touched ports draft draft :=
  ⟨Later.refl draft, fun _ _ h => h, fun _ node h => ⟨node, h, Node.Rebound.refl _ _, fun _ => rfl⟩,
    fun _ _ _ => rfl⟩

theorem trans (first : Frame touched ports a b) (second : Frame touched ports b c) : Frame touched ports a c where
  later := first.later.trans second.later
  opened := fun id hid h => first.opened id hid (second.opened id (first.later.found id hid) h)
  nodes := by
    intro id node hnode
    obtain ⟨node', hnode', hrebound, hsame⟩ := first.nodes id node hnode
    obtain ⟨node'', hnode'', hrebound', hsame'⟩ := second.nodes id node' hnode'
    exact ⟨node'', hnode'', hrebound.trans hrebound', fun h => (hsame' h).trans (hsame h)⟩
  links := fun port hport hfree =>
    (second.links port (Nat.lt_of_lt_of_le hport first.later.next) hfree).trans (first.links port hport hfree)

theorem mono (h : Frame touched ports a b) (himp : ∀ port, ports port → ports' port) :
    Frame touched ports' a b where
  later := h.later
  opened := h.opened
  nodes := by
    intro id node hnode
    obtain ⟨node', hnode', hrebound, hsame⟩ := h.nodes id node hnode
    exact ⟨node', hnode', hrebound.mono himp, hsame⟩
  links := fun port hport hfree => h.links port hport fun hp => hfree (himp _ hp)

theorem touching (h : Frame (fun _ => False) ports a b) : Frame touched ports a b where
  later := h.later
  opened := h.opened
  nodes := by
    intro id node hnode
    obtain ⟨node', hnode', hrebound, hsame⟩ := h.nodes id node hnode
    exact ⟨node', hnode', hrebound, fun _ => hsame not_false⟩
  links := h.links

/-- One input after another. -/
theorem cons {port : PortId} {rest : List PortId} (first : Frame touched (· = port) a b)
    (second : Frame touched (· ∈ rest) b c) : Frame touched (· ∈ port :: rest) a c :=
  (first.mono fun _ h => h ▸ mem_cons_self).trans (second.mono fun _ h => mem_cons_of_mem _ h)

/-- An untouched node is the same. -/
theorem node?_eq (h : Frame touched ports a b) {id : NodeId} (hnode : a.graph.node? id = some node)
    (hfree : ¬ touched id) : b.graph.node? id = some node := by
  obtain ⟨node', hnode', _, hsame⟩ := h.nodes id node hnode
  rwa [hsame hfree] at hnode'

theorem not_done (h : Frame touched ports a b) {id : NodeId} (hnode : a.graph.node? id = some node)
    (hopened : id ∉ a.done) : id ∉ b.done := fun hdone => hopened (h.opened id (by rw [hnode]; rfl) hdone)

end Frame

theorem Undisturbed.frame {a b : Draft} (h : Undisturbed a b) : Frame touched ports a b :=
  h.touching.mono fun _ => False.elim

/-! ## Inputs that take a value -/

/-- An enabled input of an open node that still has its written default. -/
structure Linkable (draft : Draft) (id : NodeId) (portId : PortId) : Prop where
  opened : id ∉ draft.done
  port : ∃ node port, draft.graph.node? id = some node ∧ node.role.isBoundary = false ∧ port ∈ node.inputs ∧
    port.id = portId ∧ port.enabled = true ∧ node.Pristine (draft.info id).shape portId

/-- Such an input that has no link. -/
structure Vacant (draft : Draft) (id : NodeId) (portId : PortId) : Prop extends Linkable draft id portId where
  free : draft.graph.linksTo portId = []

variable {rules : Rules} {draft draft' : Draft} {id : NodeId} {portId : PortId} {node' : Node}

theorem isLinked_eq_false {graph : Graph} : graph.isLinked portId = false ↔ graph.linksTo portId = [] := by
  rw [Graph.isLinked, Graph.linksTo, any_eq_false, filter_eq_nil_iff]

theorem nodup_inputs (sound : draft.Sound rules) (hnode : draft.graph.node? id = some node) :
    (node.inputs.map Port.id).Nodup := by
  have hnodup := sound.distinct hnode
  rw [Node.ports, map_append] at hnodup
  exact (nodup_append.mp hnodup).1

theorem Linkable.frame (h : draft.Linkable id portId) (sound : draft.Sound rules)
    (frame : Frame touched ports draft draft') (hport : ¬ ports portId) : draft'.Linkable id portId := by
  obtain ⟨node, port, hnode, hrole, hmem, hid, henabled, hpristine⟩ := h.port
  obtain ⟨node', hnode', hrebound, _⟩ := frame.nodes id node hnode
  have hmem' := hrebound.inputs port hmem (hid ▸ hport)
  refine ⟨frame.not_done hnode h.opened, node', port, hnode', hrebound.role ▸ hrole, hmem', hid, henabled, ?_⟩
  rw [frame.later.info id (by rw [hnode]; rfl)]
  exact hpristine.revise hrebound.samePorts.inputs (nodup_inputs sound hnode) hmem hmem' hid

theorem Vacant.frame (h : draft.Vacant id portId)
    (sound : draft.Sound rules) (frame : Frame touched ports draft draft')
    (hport : ¬ ports portId) : draft'.Vacant id portId := by
  refine ⟨h.toLinkable.frame sound frame hport, ?_⟩
  obtain ⟨node, port, hnode, _, hmem, hid, _⟩ := h.port
  have hcode : portId.code < draft.next := hid ▸ (sound.codes hnode).2 port (mem_append_left _ hmem)
  rw [frame.links portId hcode hport]
  exact h.free

/-! ## Frames of steps -/

/-- The draft with another node in the place of one. -/
def revised (draft : Draft) (id : NodeId) (node : Node) : Draft :=
  { draft with graph := draft.graph.updateNode id fun _ => node }

/-- The draft with one more completed node. -/
def closed (draft : Draft) (id : NodeId) : Draft := { draft with done := draft.done ++ [id] }

/-- The draft with a further node. -/
def added (draft : Draft) (node : Node) (info : Info) (next : Nat) : Draft :=
  { draft with graph := draft.graph.withNode node, info := Function.update draft.info node.id info, next }

/-- The draft with a further link. -/
def joined (draft : Draft) (link : Link) (next : Nat) : Draft :=
  { draft with graph := draft.graph.withLink link, next }

theorem node?_revised (hnode : draft.graph.node? id = some node) (node' : Node) :
    (draft.revised id node').graph.node? id = some node' := by
  simp [revised, hnode]

theorem node?_revised_of_ne {other : NodeId} (h : other ≠ id) (node' : Node) :
    (draft.revised id node').graph.node? other = draft.graph.node? other := by
  simp [revised, h]

theorem frame_revised (later : Later draft (draft.revised id node')) (hnode : draft.graph.node? id = some node)
    (rebound : node.Rebound ports node') : Frame (· = id) ports draft (draft.revised id node') where
  later := later
  opened := fun _ _ h => h
  nodes := by
    intro other found hfound
    by_cases h : other = id
    · subst h
      rw [hnode, Option.some.injEq] at hfound
      subst hfound
      exact ⟨node', node?_revised hnode node', rebound, fun hne => absurd rfl hne⟩
    · exact ⟨found, (node?_revised_of_ne h node').trans hfound, Node.Rebound.refl _ _, fun _ => rfl⟩
  links := fun _ _ _ => rfl

theorem frame_joined {link : Link} {next : Nat} (later : Later draft (draft.joined link next))
    (hvalues : (draft.graph.withLink link).links.values = draft.graph.links.values ++ [link]) :
    Frame (fun _ => False) (· = link.toPort) draft (draft.joined link next) where
  later := later
  opened := fun _ _ h => h
  nodes := fun _ node h => ⟨node, h, Node.Rebound.refl _ _, fun _ => rfl⟩
  links := by
    intro port _ hport
    change (draft.graph.withLink link).links.values.filter (fun l => l.toPort = port) = _
    rw [hvalues, filter_append, filter_cons_of_neg (by simpa using fun h => hport h.symm)]
    exact append_nil _

namespace Undisturbed

variable {a b c : Draft}

/-- A node that was not there may change. -/
theorem revise (h : Undisturbed a b) (hnew : a.graph.node? id = none) (later : Later b (b.revised id node')) :
    Undisturbed a (b.revised id node') where
  later := h.later.trans later
  opened := h.opened
  nodes := by
    intro other node hnode
    have hne : other ≠ id := by
      rintro rfl
      rw [hnew] at hnode
      cases hnode
    exact ⟨node, (node?_revised_of_ne hne node').trans (h.node?_eq hnode not_false),
      Node.Rebound.refl _ _, fun _ => rfl⟩
  links := h.links

/-- A node that was not there may be completed. -/
theorem close (h : Undisturbed a b) (hnew : a.graph.node? id = none) (later : Later b (b.closed id)) :
    Undisturbed a (b.closed id) where
  later := h.later.trans later
  opened := by
    intro other hother hdone
    rcases mem_append.mp hdone with hold | hlast
    · exact h.opened other hother hold
    · rw [mem_singleton.mp hlast, hnew] at hother
      cases hother
  nodes := h.nodes
  links := h.links

/-- What touches only what was not there. -/
theorem extend (h : Undisturbed a b)
    (frame : Frame touched ports b c) (hnew : ∀ id, touched id → a.graph.node? id = none)
    (hports : ∀ port, ports port → a.next ≤ port.code) : Undisturbed a c where
  later := h.later.trans frame.later
  opened := fun id hid hdone => h.opened id hid (frame.opened id (h.later.found id hid) hdone)
  nodes := by
    intro id node hnode
    have hfree : ¬ touched id := by
      intro ht
      rw [hnew id ht] at hnode
      cases hnode
    exact ⟨node, frame.node?_eq (h.node?_eq hnode not_false) hfree, Node.Rebound.refl _ _, fun _ => rfl⟩
  links := by
    intro port hport hfalse
    have hfree : ¬ ports port := fun hp => Nat.not_lt.mpr (hports port hp) hport
    exact (frame.links port (Nat.lt_of_lt_of_le hport h.later.next) hfree).trans (h.links port hport hfalse)

end Undisturbed

section Added

variable {node : Node} {info : Info} {next : Nat}

theorem undisturbed_added (sound : draft.Sound rules) (le : draft.next ≤ next)
    (unused : ∀ id ∈ node.id :: node.ports.map Port.id, draft.Unused id) :
    Undisturbed draft (draft.added node info next) where
  later := later_add sound le (unused _ mem_cons_self)
  opened := fun _ _ h => h
  nodes := by
    intro id old hold
    refine ⟨old, ?_, Node.Rebound.refl _ _, fun _ => rfl⟩
    have hne : id ≠ node.id := by
      rintro rfl
      rw [(unused node.id mem_cons_self).node] at hold
      cases hold
    exact (Graph.node?_withNode _ _ _).trans ((if_neg hne).trans hold)
  links := fun _ _ _ => rfl

/-- The identities of a node that has just been drawn are unused. -/
theorem unused_made (sound : draft.Sound rules) (made : node.Made info.shape draft.next next) :
    ∀ id ∈ node.id :: node.ports.map Port.id, draft.Unused id := fun id hid =>
  sound.unused (made.draws.range id hid).1

theorem Step.new (sound : draft.Sound rules) (made : node.Made info.shape draft.next next)
    (inner : node.role.isBoundary = false) (allowed : Allows rules info) (unpaired : node.pairedOutput = none) :
    Step rules draft (draft.added node info next) :=
  .add made made.draws.le (unused_made sound made) inner allowed unpaired

end Added

/-! ## Nodes under construction -/

/-- A node that is being made: it was not there before and is the only thing that changes. -/
structure Opened (before draft : Draft) (id : NodeId) (node : Node) : Prop where
  found : draft.graph.node? id = some node
  opened : id ∉ draft.done
  inner : node.role.isBoundary = false
  new : before.graph.node? id = none
  ports : ∀ port ∈ node.ports, before.next ≤ port.id.code
  undisturbed : Undisturbed before draft

theorem opened_added {before : Draft} {info : Info} {first next : Nat} (sound : draft.Sound rules)
    (made : node.Made info.shape first next) (le : draft.next ≤ next)
    (unused : ∀ id ∈ node.id :: node.ports.map Port.id, draft.Unused id)
    (inner : node.role.isBoundary = false) (undisturbed : Undisturbed before draft) (hfirst : before.next ≤ first) :
    Opened before (draft.added node info next) node.id node where
  found := (Graph.node?_withNode _ _ _).trans (if_pos rfl)
  opened := by
    intro hdone
    obtain ⟨old, hold⟩ := sound.present _ hdone
    rw [(unused node.id mem_cons_self).node] at hold
    cases hold
  inner := inner
  new := by
    cases hold : before.graph.node? node.id with
    | none => rfl
    | some old =>
      have hsome := undisturbed.later.found node.id (by rw [hold]; rfl)
      rw [(unused node.id mem_cons_self).node] at hsome
      cases hsome
  ports := fun port hport => Nat.le_trans hfirst
    (made.draws.range port.id (mem_cons_of_mem _ (mem_map_of_mem hport))).1
  undisturbed := undisturbed.trans (undisturbed_added sound le unused)

namespace Opened

variable {before : Draft} {node : Node}

theorem shape (h : Opened before draft id node) (sound : draft.Sound rules) :
    node.Instantiates (draft.info id).shape := (sound.shaped h.found h.inner).2

theorem ports_of_same (h : Opened before draft id node) (same : node.SamePorts node') :
    ∀ port ∈ node'.ports, before.next ≤ port.id.code := by
  intro port hport
  have hids : node'.ports.map Port.id = node.ports.map Port.id := by
    simp only [Node.ports, map_append, same.inputs, same.outputs]
  have hmem : port.id ∈ node.ports.map Port.id := hids ▸ mem_map_of_mem hport
  obtain ⟨old, hold, hid⟩ := mem_map.mp hmem
  rw [← hid]
  exact h.ports old hold

theorem revise (h : Opened before draft id node) (later : Later draft (draft.revised id node'))
    (hrole : node'.role = node.role) (same : node.SamePorts node') :
    Opened before (draft.revised id node') id node' where
  found := node?_revised h.found node'
  opened := h.opened
  inner := hrole ▸ h.inner
  new := h.new
  ports := h.ports_of_same same
  undisturbed := h.undisturbed.revise h.new later

/-- Binding to the node's own ports leaves it under construction. -/
theorem frame (h : Opened before draft id node)
    (frame : Frame (· = id) (fun port => before.next ≤ port.code) draft draft') :
    ∃ node', Opened before draft' id node' ∧ node.Rebound (fun port => before.next ≤ port.code) node' := by
  obtain ⟨node', hnode', rebound, _⟩ := frame.nodes id node h.found
  refine ⟨node', ⟨hnode', frame.not_done h.found h.opened, rebound.role ▸ h.inner, h.new,
    h.ports_of_same rebound.samePorts, ?_⟩, rebound⟩
  exact h.undisturbed.extend frame (fun _ heq => heq ▸ h.new) fun _ hport => hport

end Opened

/-- No link ends at an output. -/
theorem linksTo_output (sound : draft.Sound rules) (hnode : draft.graph.node? id = some node) {port : Port}
    (hport : port ∈ node.outputs) : draft.graph.linksTo port.id = [] := by
  refine filter_eq_nil_iff.mpr fun link hlink heq => ?_
  rw [decide_eq_true_eq] at heq
  obtain ⟨node', port', hnode', hport', hid, _⟩ := (sound.linked link hlink).finish
  obtain ⟨_, rfl, rfl⟩ := sound.eq_of_mem_ports hnode hnode' (mem_append_right _ hport)
    (mem_append_left _ hport') (heq.symm.trans hid.symm)
  have hnodup := sound.distinct hnode
  rw [Node.ports, map_append] at hnodup
  exact (nodup_append.mp hnodup).2.2 port.id (mem_map_of_mem hport') port.id (mem_map_of_mem hport) rfl

end Draft

end NodeScript
