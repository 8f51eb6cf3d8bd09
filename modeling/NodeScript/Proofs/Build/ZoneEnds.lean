import NodeScript.Proofs.Build.Calls
import NodeScript.Proofs.Graph.Edits

/-!
# The two ends of a new zone

Creating a zone adds an entry and an exit that are paired and have an input and an output for every
item.
-/

namespace NodeScript

open List

/-! ## Adding items -/

namespace Node

variable {node : Node} {spec : KindSpec} {items : List (String × SocketType)} {s : Supply}

/-- The node with the ports of a further item. -/
def withItem (node : Node) (item : String × SocketType) (s : Supply) : Node × Supply :=
  let input := (itemInput item).mint s
  let output := (itemOutput item).mint input.2
  ({ node with inputs := node.inputs ++ [input.1], outputs := node.outputs ++ [output.1] }, output.2)

theorem forall₂_append_one {chosen : String → Option String} {sockets : List Socket} {ports : List Port}
    (h : Forall₂ (Port.Fits chosen) sockets ports) {socket : Socket} {port : Port}
    (hport : port.toSocket = socket) (plain : socket.enabledWhen = none) :
    Forall₂ (Port.Fits chosen) (sockets ++ [socket]) (ports ++ [port]) := by
  refine rel_append h (forall₂_plain ?_ ?_)
  · simp [hport]
  · simpa using plain

/-- The identities of a node with a further item. -/
theorem renews_withItem (node : Node) (item : String × SocketType) (s : Supply) :
    Renews s.next (node.withItem item s).2.next (node.id :: node.ports.map Port.id)
      ((node.withItem item s).1.id :: (node.withItem item s).1.ports.map Port.id) :=
  (Renews.of_sublist (Nat.le_refl s.next) (Sublist.refl [node.id])).append
    (node.renews_addPorts ((Supply.draws_fresh s).append (Supply.draws_fresh (Supply.fresh s).2)))

theorem made_withItem {lo : Nat} (made : node.Made (spec.withItems items) lo s.next) (item : String × SocketType) :
    (node.withItem item s).1.Made (spec.withItems (items ++ [item])) lo (node.withItem item s).2.next := by
  have hinputs : (spec.withItems (items ++ [item])).inputs = (spec.withItems items).inputs ++ [itemInput item] := by
    simp [Kind.withItems]
  have houtputs : (spec.withItems (items ++ [item])).outputs =
      (spec.withItems items).outputs ++ [itemOutput item] := by
    simp [Kind.withItems]
  refine ⟨{ made.shape with inputs := ?_, outputs := ?_, silent := ?_ },
    (node.renews_withItem item s).draws made.draws, ?_⟩
  · rw [hinputs]
    exact forall₂_append_one made.shape.inputs rfl rfl
  · rw [houtputs]
    exact forall₂_append_one made.shape.outputs rfl rfl
  · rw [houtputs]
    exact rel_append made.shape.silent (.cons (fun _ => rfl) .nil)
  · intro portId entry hentry hid
    rw [hinputs] at hentry
    change entry ∈ ((spec.withItems items).inputs ++ [itemInput item]).zip (node.inputs ++ [_]) at hentry
    rw [zip_append made.shape.inputs.length_eq] at hentry
    rcases mem_append.mp hentry with hold | hnew
    · exact made.pristine portId entry hold hid
    · rw [zip_cons_cons, zip_nil_left, mem_singleton] at hnew
      rw [hnew]
      rfl

end Node

namespace Graph

variable {graph : Graph} {id : NodeId} {node : Node}

theorem updateNode_updateNode (graph : Graph) (id : NodeId) (f g : Node → Node) :
    (graph.updateNode id f).updateNode id g = graph.updateNode id (g ∘ f) := by
  simp only [updateNode, OrderedMap.modify_modify]

/-- A change that gives the same node changes nothing. -/
theorem updateNode_self (h : graph.node? id = some node) : (graph.updateNode id fun _ => node) = graph := by
  rw [updateNode, OrderedMap.modify_self h]

theorem updateNode_withNode_of_ne {other : Node} (h : id ≠ other.id) (f : Node → Node) :
    (graph.withNode other).updateNode id f = (graph.updateNode id f).withNode other := by
  simp only [withNode, updateNode, OrderedMap.modify_insert_of_ne _ h]

@[simp] theorem dropLinks_nil (graph : Graph) : graph.dropLinks [] = graph := by
  have hlinks : (graph.links.filter fun link => !([] : List PortId).any link.touchesPort) = graph.links :=
    OrderedMap.ext (filter_eq_self.mpr fun _ _ => rfl)
  simp only [dropLinks, hlinks]

theorem addItemTo_apply (h : graph.node? id = some node) (item : String × SocketType) (s : Supply) :
    graph.addItemTo item.1 item.2 id s =
      (some (graph.updateNode id fun _ => (node.withItem item s).1), (node.withItem item s).2) := by
  unfold addItemTo
  rw [h]
  refine Prod.ext (congrArg some ?_) rfl
  exact updateNode_eq h _

end Graph

/-! ## The two ends -/

variable {kind : Script.ZoneKind} {items : List (String × SocketType)} {entry exit : Node}

/-- An entry and an exit with some items and identities that were drawn for them. -/
structure ZoneEnds (kind : Script.ZoneKind) (items : List (String × SocketType)) (lo hi : Nat) (entry exit : Node) :
    Prop where
  entryMade : entry.Made (kind.entrySpec.withItems items) lo hi
  exitMade : exit.Made (kind.exitSpec.withItems items) lo hi
  paired : entry.pairedOutput = some exit.id
  unpaired : exit.pairedOutput = none
  disjoint : ∀ id ∈ entry.id :: entry.ports.map Port.id, id ∉ exit.id :: exit.ports.map Port.id

theorem ZoneEnds.ne {lo hi : Nat} (ends : ZoneEnds kind items lo hi entry exit) : entry.id ≠ exit.id := by
  intro h
  exact ends.disjoint entry.id mem_cons_self (h ▸ mem_cons_self)

/-- Both ends get a further item. -/
theorem ZoneEnds.addItem {lo : Nat} {s : Supply} (ends : ZoneEnds kind items lo s.next entry exit)
    (item : String × SocketType) :
    ZoneEnds kind (items ++ [item]) lo (exit.withItem item (entry.withItem item s).2).2.next
      (entry.withItem item s).1 (exit.withItem item (entry.withItem item s).2).1 := by
  have entryMade := Node.made_withItem ends.entryMade item
  have entryRenews := entry.renews_withItem item s
  have exitRenews := exit.renews_withItem item (entry.withItem item s).2
  have exitMade := Node.made_withItem (ends.exitMade.mono entryRenews.le) item
  refine ⟨entryMade.mono exitRenews.le, exitMade, ends.paired, ends.unpaired, fun id hentry hexit => ?_⟩
  rcases exitRenews.mem hexit with hold | hnew
  · rcases entryRenews.mem hentry with hold' | hnew'
    · exact ends.disjoint id hold' hold
    · exact Nat.not_lt.mpr hnew'.1 (ends.exitMade.draws.range id hold).2
  · exact Nat.not_lt.mpr hnew.1 (entryMade.draws.range id hentry).2

namespace Graph

variable {kind : Script.ZoneKind} {items : List (String × SocketType)} {lo hi : Nat} {entry exit : Node}

/-- The graph with a new zone. -/
def withZone (graph : Graph) (entry exit : Node) : Graph := (graph.withNode entry).withNode exit

theorem node?_withZone_entry (graph : Graph) (h : entry.id ≠ exit.id) :
    (graph.withZone entry exit).node? entry.id = some entry := by
  simp [withZone, h]

theorem node?_withZone_exit (graph : Graph) : (graph.withZone entry exit).node? exit.id = some exit := by
  simp [withZone]

theorem updateNode_withZone_entry (graph : Graph) {entry' : Node} (h : entry.id ≠ exit.id)
    (hid : entry'.id = entry.id) :
    ((graph.withZone entry exit).updateNode entry.id fun _ => entry') = graph.withZone entry' exit := by
  rw [withZone, updateNode_withNode_of_ne h, updateNode_withNode _ hid]
  rfl

theorem updateNode_withZone_exit (graph : Graph) {exit' : Node} (hid : exit'.id = exit.id) :
    ((graph.withZone entry exit).updateNode exit.id fun _ => exit') = graph.withZone entry exit' :=
  updateNode_withNode _ hid

theorem pairZone_withZone (graph : Graph) (h : entry.id ≠ exit.id) (hrole : entry.role.pairs exit.role = true) :
    (graph.withZone entry exit).pairZone entry.id exit.id =
      .ok (graph.withZone { entry with pairedOutput := some exit.id } exit) := by
  unfold pairZone
  rw [node?_withZone_entry graph h, node?_withZone_exit]
  dsimp only
  rw [if_pos hrole, updateNode_eq (node?_withZone_entry graph h)]
  exact congrArg Except.ok (updateNode_withZone_entry graph h rfl)

theorem withoutItems_eq {graph : Graph} {id : NodeId} {node : Node} (h : graph.node? id = some node)
    (plain : ∀ port ∈ node.ports, port.zoneItem = false) : graph.withoutItems id = (graph, []) := by
  have hin : (node.inputs.filter fun port => !port.zoneItem) = node.inputs :=
    filter_eq_self.mpr fun port hport => by rw [plain port (mem_append_left _ hport)]; rfl
  have hout : (node.outputs.filter fun port => !port.zoneItem) = node.outputs :=
    filter_eq_self.mpr fun port hport => by rw [plain port (mem_append_right _ hport)]; rfl
  have hnone : (node.ports.filter fun port => port.zoneItem) = [] :=
    filter_eq_nil_iff.mpr fun port hport => by simp [plain port hport]
  unfold withoutItems
  rw [h]
  dsimp only
  rw [updateNode_eq h, hin, hout, hnone]
  exact Prod.ext (updateNode_self h) rfl

theorem clearZoneItems_withZone (graph : Graph) (h : entry.id ≠ exit.id)
    (hpaired : entry.pairedOutput = some exit.id)
    (entryPlain : ∀ port ∈ entry.ports, port.zoneItem = false)
    (exitPlain : ∀ port ∈ exit.ports, port.zoneItem = false) :
    (graph.withZone entry exit).clearZoneItems entry.id = .ok (graph.withZone entry exit) := by
  have hexit : (graph.withZone entry exit).zoneExit entry.id = .ok exit.id := by
    simp [zoneExit, node?_withZone_entry graph h, hpaired]
  unfold clearZoneItems
  rw [hexit]
  dsimp only [bind, Except.bind, pure, Except.pure]
  rw [withoutItems_eq (node?_withZone_entry graph h) entryPlain]
  dsimp only
  rw [withoutItems_eq (node?_withZone_exit graph) exitPlain]
  simp

theorem addZoneItem_withZone (graph : Graph) (h : entry.id ≠ exit.id) (hpaired : entry.pairedOutput = some exit.id)
    (item : String × SocketType) (s : Supply) :
    (graph.withZone entry exit).addZoneItem entry.id item.1 item.2 s =
      ((graph.withZone (entry.withItem item s).1 (exit.withItem item (entry.withItem item s).2).1, none),
        (exit.withItem item (entry.withItem item s).2).2) := by
  have hexit : (graph.withZone entry exit).zoneExit entry.id = .ok exit.id := by
    simp [zoneExit, node?_withZone_entry graph h, hpaired]
  have hfirst := addItemTo_apply (node?_withZone_entry graph h) item s
  rw [@updateNode_withZone_entry entry exit graph (entry.withItem item s).1 h rfl] at hfirst
  have hsecond := addItemTo_apply (@node?_withZone_exit (entry.withItem item s).1 exit graph) item
    (entry.withItem item s).2
  rw [@updateNode_withZone_exit _ exit graph (exit.withItem item (entry.withItem item s).2).1 rfl] at hsecond
  unfold addZoneItem
  rw [hexit]
  dsimp only
  rw [Supply.bind_apply, hfirst]
  dsimp only
  rw [Supply.bind_apply, hsecond]
  rfl

end Graph

namespace Build

variable {b : Build} {graph : Graph} {kind : Script.ZoneKind} {lo : Nat}

theorem exec_addItems (hb : b.current? = some graph) (items : List (String × SocketType))
    {before : List (String × SocketType)} {s : Supply} (ends : ZoneEnds kind before lo s.next entry exit) :
    ∃ entry' exit' s', ZoneEnds kind (before ++ items) lo s'.next entry' exit' ∧ entry'.id = entry.id ∧
      exit'.id = exit.id ∧ exec (addItems entry.id items) ((b.withSupply s).put (graph.withZone entry exit)) =
        (.ok (), (b.withSupply s').put (graph.withZone entry' exit')) := by
  induction items generalizing before s entry exit with
  | nil => exact ⟨entry, exit, s, by rwa [append_nil], rfl, rfl, rfl⟩
  | cons item rest ih =>
    obtain ⟨entry', exit', s', ends', hentry', hexit', hexec⟩ := ih (ends.addItem item)
    refine ⟨entry', exit', s', by simpa using ends', hentry', hexit', ?_⟩
    have hcurrent := current?_put ((current?_withSupply b s).trans hb) (graph.withZone entry exit)
    have hadd := Graph.addZoneItem_withZone graph ends.ne ends.paired item s
    unfold addItems
    rw [exec_bind_ok (exec_graph hcurrent), exec_bind_ok (exec_draw _ _), supply_put, supply_withSupply, hadd]
    dsimp only
    rw [withSupply_put, withSupply_withSupply,
      exec_bind_ok (exec_putGraph (current?_put ((current?_withSupply b _).trans hb) _) _), put_put]
    exact hexec

theorem withItems_nil (spec : KindSpec) : spec.withItems [] = spec := by
  simp [Kind.withItems]

/-- The sockets of an end without items belong to no item. -/
theorem plain_of_shape {spec : KindSpec} (plain : ∀ socket ∈ spec.inputs ++ spec.outputs, socket.zoneItem = false)
    {node : Node} (shape : node.Instantiates spec) : ∀ port ∈ node.ports, port.zoneItem = false := by
  intro port hport
  obtain ⟨socket, hsocket, fits⟩ := forall₂_exists_left (rel_append shape.inputs shape.outputs) hport
  rw [fits.zoneItem]
  exact plain socket hsocket

theorem exec_createZone {session : Session} (standard : session.IsStandard) (hb : b.current? = some graph)
    (kind : Script.ZoneKind) {items : List Param} {resolved : List (String × SocketType)}
    (hresolved : resolveItems session.classes items = .ok resolved) :
    ∃ entry exit s, ZoneEnds kind resolved b.supply.next s.next entry exit ∧
      exec (createZone session kind items) b =
        (.ok (entry.id, exit.id), (b.withSupply s).put (graph.withZone entry exit)) := by
  obtain ⟨entryKind, hentryKind, entryMinted⟩ := standard.catalog.exists_kind kind.entrySpec_mem
  obtain ⟨exitKind, hexitKind, exitMinted⟩ := standard.catalog.exists_kind kind.exitSpec_mem
  obtain ⟨⟨entry, s₁⟩, hentry⟩ : ∃ made, made = Node.ofKind entryKind b.supply := ⟨_, rfl⟩
  obtain ⟨⟨exit, s₂⟩, hexit⟩ : ∃ made, made = Node.ofKind exitKind s₁ := ⟨_, rfl⟩
  have entryMade := Node.made_ofKind entryMinted (standardKinds_defaults _ kind.entrySpec_mem) b.supply
  have exitMade := Node.made_ofKind exitMinted (standardKinds_defaults _ kind.exitSpec_mem) s₁
  rw [← hentry] at entryMade
  rw [← hexit] at exitMade
  dsimp only at entryMade exitMade
  have hne : entry.id ≠ exit.id := by
    intro h
    have hlt := (entryMade.draws.range entry.id mem_cons_self).2
    have hle := (exitMade.draws.range exit.id mem_cons_self).1
    rw [h] at hlt
    omega
  have ends : ZoneEnds kind [] b.supply.next s₂.next { entry with pairedOutput := some exit.id } exit := by
    have shape := entryMade.shape
    refine ⟨?_, ?_, rfl, ?_, fun id hid hid' => ?_⟩
    · rw [withItems_nil]
      exact ⟨⟨shape.kind, shape.name, shape.role, shape.decls, shape.accepted, shape.inputs, shape.outputs,
        shape.silent⟩, (entryMade.mono exitMade.draws.le).draws, entryMade.pristine⟩
    · rw [withItems_nil]
      exact ⟨exitMade.shape, ⟨Nat.le_trans entryMade.draws.le exitMade.draws.le, exitMade.draws.nodup, fun id hid =>
        ⟨Nat.le_trans entryMade.draws.le (exitMade.draws.range id hid).1, (exitMade.draws.range id hid).2⟩⟩,
        exitMade.pristine⟩
    · have hnone : exit = (Node.ofKind exitKind s₁).1 := by rw [← hexit]
      rw [hnone]
      rfl
    · exact Nat.not_lt.mpr (exitMade.draws.range id hid').1 (entryMade.draws.range id hid).2
  obtain ⟨entry', exit', s', ends', hentry', hexit', hitems⟩ := exec_addItems hb resolved ends
  refine ⟨entry', exit', s', by simpa using ends', ?_⟩
  have hentryRole : entryKind.role.isBoundary = false := by rw [entryMinted.role]; cases kind <;> rfl
  have hexitRole : exitKind.role.isBoundary = false := by rw [exitMinted.role]; cases kind <;> rfl
  have hentryAdd := exec_addNode hb hentryKind hentryRole
  rw [← hentry] at hentryAdd
  have hcurrent := current?_put ((current?_withSupply b s₁).trans hb) (graph.withNode entry)
  have hexitAdd := exec_addNode hcurrent hexitKind hexitRole
  rw [supply_put, supply_withSupply, ← hexit, withSupply_put, withSupply_withSupply, put_put] at hexitAdd
  have hplain : (∀ port ∈ entry.ports, port.zoneItem = false) ∧ ∀ port ∈ exit.ports, port.zoneItem = false := by
    refine ⟨plain_of_shape ?_ entryMade.shape, plain_of_shape ?_ exitMade.shape⟩ <;> cases kind <;> decide
  have hroles : entry.role.pairs exit.role = true := by
    rw [entryMade.shape.role, exitMade.shape.role]
    cases kind <;> rfl
  have hpair := Graph.pairZone_withZone graph hne hroles
  have hclear := @Graph.clearZoneItems_withZone { entry with pairedOutput := some exit.id } exit graph hne rfl
    hplain.1 hplain.2
  have hcurrent₂ : ∀ g, ((b.withSupply s₂).put g).current? = some g := fun g =>
    current?_put ((current?_withSupply b s₂).trans hb) g
  have hlift : ∀ g g', exec (liftZone (.ok g')) ((b.withSupply s₂).put g) = (.ok (), (b.withSupply s₂).put g') := by
    intro g g'
    rw [← put_put (b.withSupply s₂) g g']
    exact exec_putGraph (hcurrent₂ g) g'
  have hentryId : kind.entryKind = kind.entrySpec.id := by cases kind <;> rfl
  have hexitId : kind.exitKind = kind.exitSpec.id := by cases kind <;> rfl
  unfold createZone
  rw [hresolved, hentryId, hexitId, exec_bind_ok (exec_ofExcept _ _), exec_bind_ok hentryAdd, exec_bind_ok hexitAdd,
    exec_bind_ok (exec_graph (hcurrent₂ _))]
  change exec (liftZone ((graph.withZone entry exit).pairZone entry.id exit.id) >>= _) _ = _
  rw [hpair, exec_bind_ok (hlift _ _), exec_bind_ok (exec_graph (hcurrent₂ _))]
  change exec (liftZone (Graph.clearZoneItems _ (Node.id { entry with pairedOutput := some exit.id })) >>= _) _ = _
  rw [hclear, exec_bind_ok (hlift _ _), exec_bind_ok hitems, hentry', hexit']
  rfl

end Build

end NodeScript
