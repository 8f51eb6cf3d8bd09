import NodeScript.Proofs.Build.LimitedBuilds

/-!
# What building adds to a graph

Building draws the identities of what it adds. So all identities in a graph were there before or
have been drawn meanwhile, and the ports of a node stay different from each other. This holds for
every session, whatever its catalog.
-/

namespace NodeScript

open List OrderedMap

/-! ## Identities taken over -/

/-- The later identities were there before or drawn between the codes, and differ if the earlier
ones did. -/
structure Succeeds (lo hi : Nat) (ids ids' : List Identity) : Prop where
  mem : ∀ id ∈ ids', id ∈ ids ∨ lo ≤ id.code ∧ id.code < hi
  nodup : ids.Nodup → (∀ id ∈ ids, id.code < lo) → ids'.Nodup

namespace Succeeds

variable {lo mid hi : Nat} {ids ids' ids'' : List Identity}

theorem refl (lo hi : Nat) (ids : List Identity) : Succeeds lo hi ids ids :=
  ⟨fun _ h => Or.inl h, fun h _ => h⟩

theorem ofRenews (h : Renews lo hi ids ids') : Succeeds lo hi ids ids' := ⟨fun _ => h.mem, h.nodup⟩

theorem ofDraws (h : Supply.Draws lo hi ids') (ids : List Identity) : Succeeds lo hi ids ids' :=
  ⟨fun id hid => Or.inr (h.range id hid), fun _ _ => h.nodup⟩

theorem widen {lo' hi' : Nat} (h : Succeeds lo hi ids ids') (hlo : lo' ≤ lo) (hhi : hi ≤ hi') :
    Succeeds lo' hi' ids ids' := by
  refine ⟨fun id hid => (h.mem id hid).imp_right fun hrange => ?_, fun nodup codes => ?_⟩
  · omega
  · exact h.nodup nodup fun id hid => Nat.lt_of_lt_of_le (codes id hid) hlo

theorem trans (first : Succeeds lo mid ids ids') (second : Succeeds mid hi ids' ids'') (hlo : lo ≤ mid)
    (hhi : mid ≤ hi) : Succeeds lo hi ids ids'' := by
  refine ⟨fun id hid => ?_, fun nodup codes => second.nodup (first.nodup nodup codes) fun id hid => ?_⟩
  · rcases second.mem id hid with hold | hnew
    · rcases first.mem id hold with hfirst | hfirst
      · exact Or.inl hfirst
      · exact Or.inr ⟨hfirst.1, Nat.lt_of_lt_of_le hfirst.2 hhi⟩
    · exact Or.inr ⟨Nat.le_trans hlo hnew.1, hnew.2⟩
  · rcases first.mem id hid with hfirst | hfirst
    · exact Nat.lt_of_lt_of_le (codes id hfirst) hlo
    · exact hfirst.2

end Succeeds

/-! ## Graphs that grow -/

namespace Graph

theorem mem_ids {graph : Graph} {id : Identity} : id ∈ graph.ids ↔
    (∃ key node, graph.node? key = some node ∧
      (id = key ∨ id = node.id ∨ node.pairedOutput = some id ∨ id ∈ node.portIds)) ∨
    (∃ key link, graph.links.get? key = some link ∧
      id ∈ [key, link.id, link.fromNode, link.fromPort, link.toNode, link.toPort]) ∨
    ∃ entry ∈ graph.interface.inputs ++ graph.interface.outputs, entry.id = id := by
  have hnodes : (∃ e ∈ graph.nodes.entries,
      id ∈ e.1 :: e.2.id :: e.2.pairedOutput.toList ++ e.2.ports.map Port.id) ↔
        ∃ key node, graph.node? key = some node ∧
        (id = key ∨ id = node.id ∨ node.pairedOutput = some id ∨ id ∈ node.portIds) := by
    constructor
    · rintro ⟨⟨key, node⟩, hmem, hid⟩
      refine ⟨key, node, get?_eq_some_iff.mpr hmem, ?_⟩
      simpa [Node.portIds, or_assoc, eq_comm] using hid
    · rintro ⟨key, node, hnode, hid⟩
      refine ⟨(key, node), get?_eq_some_iff.mp hnode, ?_⟩
      simpa [Node.portIds, or_assoc, eq_comm] using hid
  have hlinks : (∃ e ∈ graph.links.entries, id ∈ [e.1, e.2.id, e.2.fromNode, e.2.fromPort, e.2.toNode, e.2.toPort]) ↔
      ∃ key link, graph.links.get? key = some link ∧
        id ∈ [key, link.id, link.fromNode, link.fromPort, link.toNode, link.toPort] := by
    constructor
    · rintro ⟨⟨key, link⟩, hmem, hid⟩
      exact ⟨key, link, get?_eq_some_iff.mpr hmem, hid⟩
    · rintro ⟨key, link, hlink, hid⟩
      exact ⟨(key, link), get?_eq_some_iff.mp hlink, hid⟩
  rw [ids, mem_append, mem_append, mem_flatMap, mem_flatMap, mem_map, hnodes, hlinks, or_assoc]

/-- The later graph has identities of the earlier one and identities that were drawn between the
codes. Its nodes are new, or have taken over the ports that they had. -/
structure Grows (lo hi : Nat) (graph graph' : Graph) : Prop where
  le : lo ≤ hi
  ids : ∀ id ∈ graph'.ids, id ∈ graph.ids ∨ lo ≤ id.code ∧ id.code < hi
  ports : ∀ {id node'}, graph'.node? id = some node' →
    (∃ node, graph.node? id = some node ∧ Succeeds lo hi node.portIds node'.portIds) ∨
      lo ≤ id.code ∧ Succeeds lo hi [] node'.portIds

namespace Grows

variable {lo mid hi : Nat} {graph graph' graph'' : Graph} {id exit entry : NodeId} {node node' : Node}

theorem skip (le : lo ≤ hi) (graph : Graph) : Grows lo hi graph graph :=
  ⟨le, fun _ h => Or.inl h, fun {_ node} h => Or.inl ⟨node, h, .refl lo hi _⟩⟩

theorem trans (first : Grows lo mid graph graph') (second : Grows mid hi graph' graph'') :
    Grows lo hi graph graph'' := by
  have hlo := first.le
  have hhi := second.le
  refine ⟨Nat.le_trans hlo hhi, fun id hid => ?_, fun {id node''} hnode'' => ?_⟩
  · rcases second.ids id hid with hold | hnew
    · rcases first.ids id hold with hfirst | hfirst
      · exact Or.inl hfirst
      · exact Or.inr ⟨hfirst.1, Nat.lt_of_lt_of_le hfirst.2 hhi⟩
    · exact Or.inr ⟨Nat.le_trans hlo hnew.1, hnew.2⟩
  · rcases second.ports hnode'' with ⟨node', hnode', hports⟩ | ⟨hcode, hports⟩
    · rcases first.ports hnode' with ⟨node, hnode, hfirst⟩ | ⟨hcode, hfirst⟩
      · exact Or.inl ⟨node, hnode, hfirst.trans hports hlo hhi⟩
      · exact Or.inr ⟨hcode, hfirst.trans hports hlo hhi⟩
    · exact Or.inr ⟨Nat.le_trans hlo hcode, hports.widen hlo (Nat.le_refl hi)⟩

section

variable (found : graph.node? id = some node)
include found

theorem node_mem : id ∈ graph.ids :=
  mem_ids.mpr (Or.inl ⟨id, node, found, Or.inl rfl⟩)

theorem port_mem {port : PortId} (h : port ∈ node.portIds) : port ∈ graph.ids :=
  mem_ids.mpr (Or.inl ⟨id, node, found, Or.inr (Or.inr (Or.inr h))⟩)

theorem paired_mem (h : node.pairedOutput = some exit) : exit ∈ graph.ids :=
  mem_ids.mpr (Or.inl ⟨id, node, found, Or.inr (Or.inr (Or.inl h))⟩)

omit found in
/-- Nodes are taken over or have just been drawn; links and interface are as they were. -/
theorem ofNodes (le : lo ≤ hi) (links : graph'.links = graph.links) (interface : graph'.interface = graph.interface)
    (nodes : ∀ {id node'}, graph'.node? id = some node' →
      (∃ node, graph.node? id = some node ∧ node'.id = node.id ∧
        (∀ exit, node'.pairedOutput = some exit → exit ∈ graph.ids) ∧ Succeeds lo hi node.portIds node'.portIds) ∨
      node'.id = id ∧ node'.pairedOutput = none ∧ Supply.Draws lo hi (id :: node'.portIds)) :
    Grows lo hi graph graph' := by
  refine ⟨le, fun id hid => ?_, fun {id node'} hnode' => ?_⟩
  · rcases mem_ids.mp hid with ⟨key, node', hnode', hcases⟩ | hrest
    · rcases nodes hnode' with ⟨node, hnode, hkept, hpaired, hports⟩ | ⟨hnew, hpaired, draws⟩
      · rcases hcases with rfl | rfl | hexit | hport
        · exact Or.inl (node_mem hnode)
        · exact Or.inl (mem_ids.mpr (Or.inl ⟨key, node, hnode, Or.inr (Or.inl hkept)⟩))
        · exact Or.inl (hpaired id hexit)
        · exact (hports.mem id hport).imp_left (port_mem hnode)
      · refine Or.inr (draws.range id ?_)
        rcases hcases with rfl | rfl | hexit | hport
        · exact mem_cons_self
        · exact hnew ▸ mem_cons_self
        · rw [hpaired] at hexit
          cases hexit
        · exact mem_cons_of_mem _ hport
    · rw [links, interface] at hrest
      exact Or.inl (mem_ids.mpr (Or.inr hrest))
  · rcases nodes hnode' with ⟨node, hnode, _, _, hports⟩ | ⟨_, _, draws⟩
    · exact Or.inl ⟨node, hnode, hports⟩
    · refine Or.inr ⟨(draws.range id mem_cons_self).1, .ofDraws ?_ []⟩
      exact ⟨draws.le, (nodup_cons.mp draws.nodup).2, fun id hid => draws.range id (.tail _ hid)⟩

/-- One node is changed, and its ports are taken over. -/
theorem update (le : lo ≤ hi) (hid : node'.id = node.id)
    (paired : ∀ exit, node'.pairedOutput = some exit → exit ∈ graph.ids)
    (ports : Succeeds lo hi node.portIds node'.portIds) :
    Grows lo hi graph (graph.updateNode id fun _ => node') := by
  refine ofNodes le rfl rfl fun {key new} hnew => Or.inl ?_
  rw [node?_updateNode] at hnew
  split at hnew
  · next heq =>
      subst heq
      rw [found] at hnew
      cases hnew
      exact ⟨node, found, hid, paired, ports⟩
  · exact ⟨new, hnew, rfl, fun _ => paired_mem hnew, .refl lo hi _⟩

/-- A node keeps its ports. -/
theorem ofSamePorts (same : node.SamePorts node') (next : Nat) :
    Grows next next graph (graph.updateNode id fun _ => node') := by
  refine update found (Nat.le_refl next) same.id (fun exit hexit => paired_mem found (same.pairedOutput ▸ hexit)) ?_
  have hids : node'.portIds = node.portIds := by
    simp only [Node.portIds, Node.ports, map_append, same.inputs, same.outputs]
  rw [hids]
  exact .refl next next _

end

theorem dropLinks (ports : List PortId) (next : Nat) (graph : Graph) :
    Grows next next graph (graph.dropLinks ports) := by
  refine ⟨Nat.le_refl next, fun id hid => Or.inl ?_, fun {_ node} h => Or.inl ⟨node, h, .refl next next _⟩⟩
  rcases mem_ids.mp hid with hnode | ⟨key, link, hlink, hcases⟩ | hentry
  · exact mem_ids.mpr (Or.inl hnode)
  · refine mem_ids.mpr (Or.inr (Or.inl ⟨key, link, ?_, hcases⟩))
    exact get?_eq_some_iff.mpr (mem_filter.mp (get?_eq_some_iff.mp hlink)).1
  · exact mem_ids.mpr (Or.inr (Or.inr hentry))

/-- Nodes keep their ports from the front where the boundary is aligned. -/
theorem alignBoundary (graph : Graph) (s : Supply) :
    Grows s.next (graph.alignBoundary s).2.next graph (graph.alignBoundary s).1 := by
  have hclimbs := Supply.climbs_alignNode graph.interface
  have hle := Supply.climbs_mapState hclimbs graph.nodes s
  have haligned : Grows s.next (graph.alignBoundary s).2.next graph
      { graph with nodes := (graph.nodes.mapState (Boundary.alignNode graph.interface) s).1 } := by
    refine ofNodes hle rfl rfl fun {id node'} h => Or.inl ?_
    obtain ⟨node, s', hold, hlo, hhi, rfl⟩ := get?_mapState hclimbs h
    obtain ⟨_, hpaired, hid⟩ := Boundary.role_alignNode graph.interface node s'
    have hports := Succeeds.ofRenews (Boundary.renews_alignNode graph.interface node s')
    exact ⟨node, hold, hid, fun exit hexit => paired_mem hold (hpaired ▸ hexit), hports.widen hlo hhi⟩
  exact haligned.trans (.dropLinks _ _ _)

/-- A new node whose identities have just been drawn. -/
theorem withNode (draws : Supply.Draws lo hi (node.id :: node.portIds)) (unpaired : node.pairedOutput = none)
    (graph : Graph) : Grows lo hi graph (graph.withNode node) := by
  refine ofNodes draws.le rfl rfl fun {id new} hnew => ?_
  rw [node?_withNode] at hnew
  split at hnew
  · next heq =>
      cases hnew
      exact Or.inr ⟨heq.symm, unpaired, heq ▸ draws⟩
  · exact Or.inl ⟨new, hnew, rfl, fun _ => paired_mem hnew, .refl lo hi _⟩

theorem addNode (kind : NodeKind) (graph : Graph) (s : Supply) :
    Grows s.next (graph.addNode (Node.ofKind kind s).1 (Node.ofKind kind s).2).2.next graph
      (graph.addNode (Node.ofKind kind s).1 (Node.ofKind kind s).2).1 := by
  have hnew : Grows s.next (Node.ofKind kind s).2.next graph (graph.withNode (Node.ofKind kind s).1) :=
    .withNode (Node.draws_ofKind kind s) rfl graph
  unfold Graph.addNode
  split
  · exact hnew.trans (.alignBoundary _ _)
  · exact hnew

/-- A link between ports of the graph. -/
theorem withLink {fromNode : NodeId} {fromPort : PortId} {toNode : NodeId} {toPort : PortId}
    (h : graph.checkLink fromNode fromPort toNode toPort = .ok ()) (s : Supply) :
    Grows s.next (Supply.fresh s).2.next graph
      (graph.withLink ⟨(Supply.fresh s).1, fromNode, fromPort, toNode, toPort⟩) := by
  obtain ⟨source, target, output, input, hsource, htarget, houtput, hinput, _⟩ := graph.checkLink_eq_ok.mp h
  have hport : ∀ {key node portId port}, graph.node? key = some node → node.port? portId = some port →
      portId ∈ graph.ids := by
    intro key node portId port hnode hport
    obtain ⟨hmem, hid⟩ := Node.port?_eq_some hport
    exact port_mem hnode (hid ▸ mem_map_of_mem hmem)
  have hdrawn := (Supply.draws_fresh s).range (Supply.fresh s).1 mem_cons_self
  refine ⟨Supply.climbs_fresh s, fun id hid => ?_, fun {_ node} hnode => Or.inl ⟨node, hnode, .refl _ _ _⟩⟩
  rcases mem_ids.mp hid with hnode | ⟨key, link, hlink, hcases⟩ | hentry
  · exact Or.inl (mem_ids.mpr (Or.inl hnode))
  · rw [show (graph.withLink _).links.get? key = _ from get?_insert _ _ _ _] at hlink
    split at hlink
    · next heq =>
        cases hlink
        subst heq
        simp only [mem_cons, not_mem_nil, or_false] at hcases
        rcases hcases with rfl | rfl | rfl | rfl | rfl | rfl
        · exact Or.inr hdrawn
        · exact Or.inr hdrawn
        · exact Or.inl (node_mem hsource)
        · exact Or.inl (hport hsource houtput)
        · exact Or.inl (node_mem htarget)
        · exact Or.inl (hport htarget hinput)
    · exact Or.inl (mem_ids.mpr (Or.inr (Or.inl ⟨key, link, hlink, hcases⟩)))
  · exact Or.inl (mem_ids.mpr (Or.inr (Or.inr hentry)))

/-- A further output of the interface. -/
theorem addOutput (declaration : Declaration) (graph : Graph) (s : Supply) :
    Grows s.next (graph.addOutput (declaration.mint s).1 (declaration.mint s).2).2.next graph
      (graph.addOutput (declaration.mint s).1 (declaration.mint s).2).1 := by
  have hdrawn : s.next ≤ (declaration.mint s).1.id.code ∧
      (declaration.mint s).1.id.code < (declaration.mint s).2.next :=
    (Supply.draws_fresh s).range (Supply.fresh s).1 mem_cons_self
  have hentry : Grows s.next (declaration.mint s).2.next graph { graph with
      interface := { graph.interface with outputs := graph.interface.outputs ++ [(declaration.mint s).1] } } := by
    refine ⟨Supply.climbs_declaration declaration s, fun id hid => ?_, fun {_ node} hnode =>
      Or.inl ⟨node, hnode, .refl _ _ _⟩⟩
    rcases mem_ids.mp hid with hnode | hlink | ⟨entry, hentry, rfl⟩
    · exact Or.inl (mem_ids.mpr (Or.inl hnode))
    · exact Or.inl (mem_ids.mpr (Or.inr (Or.inl hlink)))
    · rw [← append_assoc] at hentry
      rcases mem_append.mp hentry with hold | hnew
      · exact Or.inl (mem_ids.mpr (Or.inr (Or.inr ⟨entry, hold, rfl⟩)))
      · rw [mem_singleton.mp hnew]
        exact Or.inr hdrawn
  exact hentry.trans (.alignBoundary _ _)

theorem pairZone (h : graph.pairZone entry exit = .ok graph') (next : Nat) : Grows next next graph graph' := by
  obtain ⟨node, other, hnode, hother, _, _, rfl⟩ := pairZone_eq_ok h
  refine update hnode (Nat.le_refl next) rfl (fun id hid => ?_) (.refl next next _)
  cases hid
  exact node_mem hother

theorem withoutItems (id : NodeId) (next : Nat) (graph : Graph) :
    Grows next next graph (graph.withoutItems id).1 := by
  unfold Graph.withoutItems
  cases found : graph.node? id with
  | none => exact .skip (Nat.le_refl next) graph
  | some node =>
    dsimp only
    rw [updateNode_eq found]
    refine update found (Nat.le_refl next) rfl (fun exit hexit => paired_mem found hexit) (.ofRenews ?_)
    exact .of_sublist (Nat.le_refl next) ((filter_sublist.append filter_sublist).map _)

theorem clearZoneItems (h : graph.clearZoneItems entry = .ok graph') (next : Nat) :
    Grows next next graph graph' := by
  obtain ⟨exit, ports, _, _, rfl⟩ := clearZoneItems_eq_ok h
  exact (Grows.dropLinks ports next graph).trans ((withoutItems entry next _).trans (withoutItems exit next _))

theorem addItemTo {name : String} {type : SocketType} {s : Supply}
    (h : (graph.addItemTo name type id s).1 = some graph') :
    Grows s.next (graph.addItemTo name type id s).2.next graph graph' := by
  obtain ⟨node, input, output, found, _, _, hdraws, rfl⟩ := addItemTo_eq_some h
  exact update found hdraws.le rfl (fun exit hexit => paired_mem found hexit)
    (.ofRenews (node.renews_addPorts hdraws))

theorem addZoneItem (graph : Graph) (entry : NodeId) (name : String) (type : SocketType) (s : Supply) :
    Grows s.next (graph.addZoneItem entry name type s).2.next graph (graph.addZoneItem entry name type s).1.1 := by
  refine addZoneItem_induction (R := fun next g => Grows s.next next graph g) (.skip (Nat.le_refl _) graph)
    (fun le h => h.trans (.skip le _)) fun _ _ h hitem => h.trans (addItemTo hitem)

theorem move (graph : Graph) (id : NodeId) (position : Single × Single) (next : Nat) :
    Grows next next graph (graph.move id position) := by
  unfold Graph.move
  cases found : graph.node? id with
  | none =>
    have hnodes : ∀ f, graph.nodes.modify id f = graph.nodes :=
      modify_of_not_mem (get?_eq_none_iff.mp found)
    rw [updateNode, hnodes]
    exact .skip (Nat.le_refl next) graph
  | some node =>
    rw [updateNode_eq found]
    have hsame : node.SamePorts { node with position } := ⟨rfl, rfl, rfl, rfl⟩
    exact ofSamePorts found hsame next

end Grows

end Graph

/-! ## Limits -/

open Build

/-- Building that only adds what it has drawn identities for. -/
def growing : Limits where
  edit g s g' s' := g.Grows s.next s'.next g'
  free _ := False
  error _ := True
  kind _ := True
  property _ _ := True
  literal _ := True
  context _ := True
  quiet := True

namespace growing

variable (session : Session)

/-- Every edit grows the graph, whatever the session. -/
theorem lawful : growing.Lawful session where
  skip le := .skip le _
  trans := .trans
  plain _ := trivial
  add {_ kind} _ _ := .addNode kind
  assign _ found hset s := .ofSamePorts found (Node.samePorts_setProperty hset) s.next
  fill {_ _ n value} _ found port s := .ofSamePorts found (n.samePorts_updatePort port value) s.next
  link := .withLink
  pair h s := .pairZone h s.next
  clear h s := .clearZoneItems h s.next
  item := .addZoneItem
  output g declaration := .addOutput declaration g
  move g id position s := .move g id position s.next
  coerce _ _ _ := trivial
  carrier _ _ := trivial
  carried _ _ _ := trivial
  ends _ := ⟨trivial, trivial⟩
  context _ _ := trivial

theorem limits : growing.Open session :=
  { lawful session with
    kinds := fun _ => trivial
    properties := fun _ _ => trivial
    literals := fun _ => trivial
    ports := fun found drawn drawn' => by
      have hports := drawn.append drawn'
      rw [← List.map_append] at hports
      exact .update found hports.le rfl (fun exit hexit => Graph.Grows.paired_mem found hexit) (.ofDraws hports _) }

end growing

end NodeScript
