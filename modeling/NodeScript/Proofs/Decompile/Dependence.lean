import Mathlib.Data.Finset.Card
import NodeScript.Proofs.Decompile.Spans

/-!
# Nodes that the sink relies on

A node relies on the nodes that feed it, and the exit of a zone relies on the entry. Where this
relation has no cycle, the statements of a decompiled program are those of the nodes that the sink
relies on, each node behind all it relies on. Nodes are told apart by their identities, so a zone
entry has to be kept under its own one and an input must not be on two nodes.
-/

namespace NodeScript.Graph

open OrderedMap List Relation

variable {graph : Graph} {entry exit id other sink : NodeId}

/-- A zone goes from one node to the other. -/
structure Opens (graph : Graph) (entry exit : NodeId) : Prop where
  found : ∃ node, graph.node? entry = some node ∧ node.role.isZoneEntry = true ∧ node.pairedOutput = some exit
  exit : ∃ node, graph.node? exit = some node ∧ node.role.isZoneExit = true

/-- A node relies on what feeds it, and an exit on its entry. -/
inductive Relies (graph : Graph) (id other : NodeId) : Prop
  | link (feeds : graph.Feeds other id)
  | zone (opens : graph.Opens other id)

/-- The ports that a link joins belong to the nodes that it joins. -/
structure Attached (graph : Graph) : Prop where
  starts : ∀ link ∈ graph.links.values, ∃ node ∈ graph.node? link.fromNode, link.fromPort ∈ node.outputs.map Port.id
  ends : ∀ link ∈ graph.links.values, ∃ node ∈ graph.node? link.toNode, link.toPort ∈ node.inputs.map Port.id

/-- The inputs that links reach are on one node only. -/
structure InputsApart (graph : Graph) : Prop where
  inputs : ∀ link ∈ graph.links.values, ∀ {id node}, graph.node? id = some node →
    link.toPort ∈ node.inputs.map Port.id → link.toNode = id

/-- Links join ports of nodes of the graph, an exit has one entry, and no node relies on itself. -/
structure Orderly (graph : Graph) : Prop extends graph.Attached where
  single : ∀ {entry entry' exit}, graph.Opens entry exit → graph.Opens entry' exit → entry = entry'
  acyclic : ∀ id, ¬ TransGen graph.Relies id id

/-- Zone entries are kept under their own identities, and the inputs that links reach are on one
node only. -/
structure Identified (graph : Graph) : Prop extends graph.InputsApart where
  entries : ∀ {id node}, graph.node? id = some node → node.role.isZoneEntry = true → node.id = id

/-- All zones, with entries and exits by the keys under which they are kept. -/
def zones (graph : Graph) : List (NodeId × NodeId) :=
  graph.nodes.entries.flatMap fun (id, node) => (node.pairedOutput.filter fun exit =>
    node.role.isZoneEntry && (graph.node? exit).any fun last =>
      last.role.isZoneExit).toList.map fun exit => (id, exit)

theorem mem_zones : (entry, exit) ∈ graph.zones ↔ graph.Opens entry exit := by
  unfold zones
  simp only [mem_flatMap, mem_map, Option.mem_toList, Option.filter_eq_some_iff, Bool.and_eq_true, Prod.mk.injEq]
  constructor
  · rintro ⟨⟨id, node⟩, hmem, last, ⟨hpaired, hentry, hexit⟩, rfl, rfl⟩
    refine ⟨⟨node, get?_eq_some_iff.mpr hmem, hentry, hpaired⟩, ?_⟩
    obtain ⟨node, hnode, hrole⟩ := (Option.any_eq_true _ _).mp hexit
    exact ⟨node, hnode, hrole⟩
  · rintro ⟨⟨node, hnode, hentry, hpaired⟩, last, hlast, hexit⟩
    refine ⟨(entry, node), get?_eq_some_iff.mp hnode, exit, ⟨hpaired, hentry, ?_⟩, rfl, rfl⟩
    exact (Option.any_eq_true _ _).mpr ⟨last, hlast, hexit⟩

theorem spanned_span : graph.Spanned (graph.span entry exit) ↔ graph.Opens entry exit :=
  ⟨fun spanned => ⟨spanned.found, spanned.exit⟩, fun opens => ⟨rfl, opens.found, opens.exit⟩⟩

/-- Nodes of a higher rank are not relied on. -/
theorem acyclic_of_ranked (rank : NodeId → Nat) (ranked : graph.Ranked rank)
    (zones : ∀ zone ∈ graph.zones, rank zone.1 < rank zone.2) (id : NodeId) :
    ¬ TransGen graph.Relies id id := by
  have hstep : ∀ {id other}, graph.Relies id other → rank other < rank id := by
    rintro id other (⟨link, hlink, rfl, rfl⟩ | opens)
    · exact ranked link hlink
    · exact zones (other, id) (mem_zones.mpr opens)
  have hlower : ∀ {id other}, TransGen graph.Relies id other → rank other < rank id := by
    intro id other path
    induction path with
    | single relies => exact hstep relies
    | tail _ relies ih => exact Nat.lt_trans (hstep relies) ih
  exact fun path => Nat.lt_irrefl _ (hlower path)

/-- Zones with different exits. -/
theorem single_of_nodup (hnodup : (graph.zones.map Prod.snd).Nodup)
    {entry' : NodeId} (opens : graph.Opens entry exit)
    (opens' : graph.Opens entry' exit) : entry = entry' :=
  congrArg Prod.fst (inj_on_of_nodup_map hnodup (mem_zones.mpr opens) (mem_zones.mpr opens') rfl)

/-! ## Dependencies -/

section

variable (orderly : graph.Orderly) (identified : graph.Identified)
include orderly identified

theorem mem_dependencies :
    other ∈ graph.dependencies graph.spans id ↔ graph.Relies id other := by
  unfold dependencies
  rw [mem_append, Option.mem_toList, mem_producersOf]
  constructor
  · rintro (hentry | ⟨node, port, link, hnode, hport, hlink, hto, hfrom⟩)
    · exact .zone (spanned_span.mp (spanned_of_entryOf? identified.entries hentry))
    · have hid : link.toNode = id := identified.inputs link hlink hnode (hto ▸ mem_map_of_mem hport)
      exact .link ⟨link, hlink, hfrom, hid⟩
  · rintro (⟨link, hlink, rfl, rfl⟩ | opens)
    · obtain ⟨node, hnode, hto⟩ := orderly.ends link hlink
      obtain ⟨port, hport, hid⟩ := mem_map.mp hto
      exact .inr ⟨node, port, link, hnode, hport, hlink, hid.symm, rfl⟩
    · exact .inl (entryOf?_exit identified.entries (spanned_span.mpr opens)
        fun entry spanned => orderly.single (spanned_span.mp spanned) opens)

theorem dependencies_eq_relies :
    (fun id other => other ∈ graph.dependencies graph.spans id) = graph.Relies := by
  funext id other
  exact propext (mem_dependencies orderly identified)

omit orderly identified in
/-- Nodes that rely on something, or are relied on, are in the graph. -/
theorem Orderly.mem_keys (orderly : graph.Orderly) (relies : graph.Relies id other) :
    id ∈ graph.nodes.keys ∧ other ∈ graph.nodes.keys := by
  have hkey : ∀ {id node}, graph.node? id = some node → id ∈ graph.nodes.keys :=
    fun hnode => mem_keys_iff.mpr ⟨_, hnode⟩
  rcases relies with ⟨link, hlink, rfl, rfl⟩ | opens
  · obtain ⟨_, hto, _⟩ := orderly.ends link hlink
    obtain ⟨_, hfrom, _⟩ := orderly.starts link hlink
    exact ⟨hkey hto, hkey hfrom⟩
  · obtain ⟨_, hentry, _⟩ := opens.found
    obtain ⟨_, hexit, _⟩ := opens.exit
    exact ⟨hkey hexit, hkey hentry⟩

open Classical in
/-- The number of nodes that a node relies on. -/
noncomputable def reliance (graph : Graph) (id : NodeId) : Nat :=
  (graph.nodes.keys.toFinset.filter (TransGen graph.Relies id)).card

omit orderly identified in
theorem reliance_le_size (graph : Graph) (id : NodeId) : graph.reliance id ≤ graph.nodes.size := by
  classical
  calc graph.reliance id ≤ graph.nodes.keys.toFinset.card := Finset.card_filter_le _ _
    _ ≤ graph.nodes.keys.length := toFinset_card_le _
    _ = graph.nodes.size := length_map _

omit orderly identified in
/-- A node relies on more than any node that it relies on. -/
theorem Orderly.reliance_lt (orderly : graph.Orderly) (relies : graph.Relies id other) :
    graph.reliance other < graph.reliance id := by
  classical
  refine Finset.card_lt_card (Finset.ssubset_iff_subset_ne.mpr ⟨fun last hlast => ?_, fun heq => ?_⟩)
  · obtain ⟨hkey, path⟩ := Finset.mem_filter.mp hlast
    exact Finset.mem_filter.mpr ⟨hkey, .head relies path⟩
  · have hother : other ∈ graph.nodes.keys.toFinset.filter (TransGen graph.Relies id) :=
      Finset.mem_filter.mpr ⟨mem_toFinset.mpr (orderly.mem_keys relies).2, .single relies⟩
    rw [← heq] at hother
    exact orderly.acyclic other (Finset.mem_filter.mp hother).2

theorem Orderly.founded :
    graph.Founded graph.spans graph.reliance fun id => id ∈ graph.nodes.keys where
  present := fun hid => Option.isSome_iff_exists.mpr (mem_keys_iff.mp hid)
  closed := fun _ hother => (orderly.mem_keys ((mem_dependencies orderly identified).mp hother)).2
  lower := fun _ hother => orderly.reliance_lt ((mem_dependencies orderly identified).mp hother)

/-! ## Statements -/

/-- The walk from a node of the graph visits all the node relies on. -/
theorem Orderly.settled (hsink : sink ∈ graph.nodes.keys) :
    (graph.visit graph.spans (graph.nodes.size + 2) {} sink).Settled graph graph.spans (fun _ => False) ∧
      sink ∈ (graph.visit graph.spans (graph.nodes.size + 2) {} sink).visited := by
  have hdepth : graph.reliance sink < graph.nodes.size + 2 := by
    have hle := graph.reliance_le_size sink
    omega
  exact settled_visit (orderly.founded identified) _ hsink hdepth (fun _ h => h.elim)
    ⟨fun _ h => absurd h not_mem_nil, fun _ h => absurd h not_mem_nil, .nil _⟩

theorem mem_visited_of_relies {walk : Walk}
    (settled : walk.Settled graph graph.spans fun _ => False) (hid : id ∈ walk.visited)
    (path : TransGen graph.Relies id other) : other ∈ walk.visited := by
  induction path with
  | single relies => exact settled.deps id hid (fun h => h) _ ((mem_dependencies orderly identified).mpr relies)
  | tail _ relies ih => exact settled.deps _ ih (fun h => h) _ ((mem_dependencies orderly identified).mpr relies)

theorem mem_statementOrder {source : NodeId} :
    id ∈ graph.statementOrder graph.spans source sink ↔
      graph.Speaks id ∧ id ≠ source ∧ id ≠ sink ∧ TransGen graph.Relies sink id := by
  unfold statementOrder
  rw [mem_filter, Bool.and_eq_true, decide_eq_true_eq, decide_eq_true_eq]
  constructor
  · rintro ⟨hmem, hsource, hsink⟩
    have tidy := (graph.grows_visit graph.spans (graph.nodes.size + 2) {} sink).tidy ⟨nodup_nil, fun _ h => h⟩
    have path := (depends_of_visited _ (tidy.visited id hmem)).resolve_left not_mem_nil
    rw [dependencies_eq_relies orderly identified] at path
    exact ⟨(speaks_of_mem_order _ hmem).resolve_left not_mem_nil, hsource, hsink,
      (reflTransGen_iff_eq_or_transGen.mp path).resolve_left hsink⟩
  · rintro ⟨speaks, hsource, hsink, path⟩
    obtain ⟨next, relies, _⟩ := TransGen.head'_iff.mp path
    obtain ⟨settled, hvisited⟩ := orderly.settled identified (orderly.mem_keys relies).1
    have hid := mem_visited_of_relies orderly identified settled hvisited path
    exact ⟨settled.order id hid (fun h => h) speaks, hsource, hsink⟩

theorem sorts_statementOrder (source sink : NodeId) :
    Sorts (fun id other => TransGen graph.Relies id other ∧
      other ∈ graph.statementOrder graph.spans source sink) (graph.statementOrder graph.spans source sink) := by
  intro before id behind hsplit other ⟨path, hother⟩
  obtain ⟨speaks, hsource, hsink, hreach⟩ := (mem_statementOrder orderly identified).mp hother
  obtain ⟨next, relies, _⟩ := TransGen.head'_iff.mp hreach
  have sorted := (orderly.settled identified (orderly.mem_keys relies).1).1.sorted
  rw [dependencies_eq_relies orderly identified] at sorted
  exact sorted.filter _ before id behind hsplit other ⟨⟨path, speaks⟩, by simp [hsource, hsink]⟩

end

/-- The statements of a graph are those of the nodes that the sink relies on, other than the source,
the sink and entries of zones. Each node has one, behind those of all nodes that it relies on. -/
theorem statementOrder_lists_relied (orderly : graph.Orderly)
    (identified : graph.Identified) (source sink : NodeId) :
    (graph.statementOrder graph.spans source sink).Nodup ∧
    (∀ id, id ∈ graph.statementOrder graph.spans source sink ↔
      graph.Speaks id ∧ id ≠ source ∧ id ≠ sink ∧ Relation.TransGen graph.Relies sink id) ∧
    ∀ id ∈ graph.statementOrder graph.spans source sink, ∀ other ∈ graph.statementOrder graph.spans source sink,
      Relation.TransGen graph.Relies id other →
        (graph.statementOrder graph.spans source sink).idxOf other <
          (graph.statementOrder graph.spans source sink).idxOf id := by
  have hnodup := graph.statementOrder_nodup graph.spans source sink
  refine ⟨hnodup, fun id => mem_statementOrder orderly identified, fun id hid other hother path => ?_⟩
  exact (sorts_statementOrder orderly identified source sink).idxOf_lt hnodup hid ⟨path, hother⟩

/-- A node with numbers for ports. -/
def sketchNode (id : Nat) (role : Role) (inputs outputs : List Nat) (exit : Option Nat) : Node where
  id := ⟨id⟩
  kind := ""
  name := ""
  role := role
  inputs := inputs.map fun n => ⟨.input "" .float none, ⟨n⟩⟩
  outputs := outputs.map fun n => ⟨.output "" .float none, ⟨n⟩⟩
  properties := []
  pairedOutput := exit.map Identity.mk

/-- A graph of nodes under numbers as keys. Links have the number of a node and that of a port at
both ends. -/
def sketch (nodes : List (Nat × Node)) (links : List (Nat × Nat × Nat × Nat)) : Graph where
  name := untitled
  nodes := .ofList (nodes.map fun (key, node) => (⟨key⟩, node))
  links := .ofList (links.zipIdx.map fun ((first, output, last, input), n) =>
    (⟨n⟩, ⟨⟨n⟩, ⟨first⟩, ⟨output⟩, ⟨last⟩, ⟨input⟩⟩))

/-- The sink reads a zone, a node feeds the entry of the zone, and there are two nodes that the sink
does not rely on. The entry has the number `entry` for its identity, and the last node the number
`input` for its input. -/
def station (entry input : Nat) : Graph := sketch
  [(0, sketchNode 0 .groupInput [] [] none), (1, sketchNode 1 .groupOutput [10] [] none),
    (2, sketchNode entry .repeatInput [20] [] (some 3)), (3, sketchNode 3 .repeatOutput [] [31] none),
    (4, sketchNode 4 .regular [] [41] none), (5, sketchNode 5 .regular [] [51] none),
    (6, sketchNode 6 .regular [input] [] none)]
  [(4, 41, 2, 20), (3, 31, 1, 10), (5, 51, 6, input)]

theorem orderly_station {entry input : Nat} (h : (entry, input) ∈ [(2, 60), (9, 60), (2, 10)]) :
    (station entry input).Orderly := by
  have hcases : entry = 2 ∧ input = 60 ∨ entry = 9 ∧ input = 60 ∨ entry = 2 ∧ input = 10 := by simpa using h
  rcases hcases with ⟨rfl, rfl⟩ | ⟨rfl, rfl⟩ | ⟨rfl, rfl⟩ <;>
  exact ⟨⟨by decide, by decide⟩, single_of_nodup (by decide),
    acyclic_of_ranked (fun id => [4, 5, 2, 3, 1, 6].idxOf id.code) (by unfold Ranked; decide) (by decide)⟩

theorem statementOrder_lists_relied_station :
    (station 2 60).Orderly ∧ (station 2 60).Identified ∧
      (station 2 60).statementOrder (station 2 60).spans ⟨0⟩ ⟨1⟩ = [⟨4⟩, ⟨3⟩] ∧
      ∀ id, id = ⟨4⟩ ∨ id = ⟨3⟩ ↔ (station 2 60).Speaks id ∧ id ≠ ⟨0⟩ ∧ id ≠ ⟨1⟩ ∧
        Relation.TransGen (station 2 60).Relies ⟨1⟩ id := by
  have orderly : (station 2 60).Orderly := orderly_station (by decide)
  have hentries : ∀ entry ∈ (station 2 60).nodes.entries,
      entry.2.role.isZoneEntry = true → entry.2.id = entry.1 := by
    decide
  have hinputs : ∀ link ∈ (station 2 60).links.values, ∀ entry ∈ (station 2 60).nodes.entries,
      link.toPort ∈ entry.2.inputs.map Port.id → link.toNode = entry.1 := by
    decide
  have identified : (station 2 60).Identified :=
    ⟨⟨fun link hlink _ _ hnode => hinputs link hlink _ (get?_eq_some_iff.mp hnode)⟩,
      fun hnode => hentries _ (get?_eq_some_iff.mp hnode)⟩
  have horder : (station 2 60).statementOrder (station 2 60).spans ⟨0⟩ ⟨1⟩ = [⟨4⟩, ⟨3⟩] := by decide +kernel
  refine ⟨orderly, identified, horder, fun id => ?_⟩
  have hlists := (statementOrder_lists_relied orderly identified ⟨0⟩ ⟨1⟩).2.1 id
  rw [horder, mem_cons, mem_singleton] at hlists
  exact hlists

/-- An entry under a foreign identity hides what its zone relies on, and an input that is on two
nodes makes one of them rely on what is linked to the other one. -/
theorem statementOrder_station_misled :
    ((station 9 60).Orderly ∧ (station 9 60).Speaks ⟨4⟩ ∧ Relation.TransGen (station 9 60).Relies ⟨1⟩ ⟨4⟩ ∧
      ⟨4⟩ ∉ (station 9 60).statementOrder (station 9 60).spans ⟨0⟩ ⟨1⟩) ∧
    (station 2 10).Orderly ∧ ⟨5⟩ ∈ (station 2 10).statementOrder (station 2 10).spans ⟨0⟩ ⟨1⟩ ∧
      ¬ Relation.TransGen (station 2 10).Relies ⟨1⟩ ⟨5⟩ := by
  refine ⟨⟨orderly_station (by decide), ⟨_, rfl, by decide⟩, ?_, by decide +kernel⟩, orderly_station (by decide),
    by decide +kernel, fun path => ?_⟩
  · have hlinks : ∀ pair ∈ [(3, 1), (4, 2)], ∃ link ∈ (station 9 60).links.values,
        link.fromNode = ⟨pair.1⟩ ∧ link.toNode = ⟨pair.2⟩ := by
      decide
    exact ((Relation.TransGen.single (.link (hlinks (3, 1) (by decide)))).tail
      (.zone (mem_zones.mp (by decide)))).tail (.link (hlinks (4, 2) (by decide)))
  · -- The sink, the zone and what feeds it rely on each other only.
    have hlinks : ∀ link ∈ (station 2 10).links.values,
        link.toNode.code ∈ [1, 2, 3, 4] → link.fromNode.code ∈ [2, 3, 4] := by
      decide
    have hzones : ∀ zone ∈ (station 2 10).zones, zone.1.code ∈ [2, 3, 4] := by decide
    have hstep : ∀ {id other : NodeId}, id.code ∈ [1, 2, 3, 4] → (station 2 10).Relies id other →
        other.code ∈ [2, 3, 4] := by
      rintro id other hid (⟨link, hlink, rfl, rfl⟩ | opens)
      · exact hlinks link hlink hid
      · exact hzones _ (mem_zones.mpr opens)
    have hreach : ∀ {other : NodeId}, Relation.TransGen (station 2 10).Relies ⟨1⟩ other →
        other.code ∈ [2, 3, 4] := by
      intro other path
      induction path with
      | single relies => exact hstep (by decide) relies
      | tail _ relies ih => exact hstep (mem_cons_of_mem _ ih) relies
    exact absurd (hreach path) (by decide)

end NodeScript.Graph
