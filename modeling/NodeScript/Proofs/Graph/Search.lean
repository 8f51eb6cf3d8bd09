import Mathlib.Data.List.Perm.Subperm
import Mathlib.Data.List.Nodup
import Mathlib.Logic.Relation
import NodeScript.Graph.Order
import NodeScript.Proofs.Graph.Maps

/-!
# The search for a dependency order

The depth-first search ends on every graph. It fails on a cycle and nowhere else, and what it yields
is an order of all nodes in which every link leads forwards.
-/

namespace NodeScript

open List

namespace Graph

/-- There is a link between the nodes. -/
def Feeds (graph : Graph) (producer consumer : NodeId) : Prop :=
  ∃ link ∈ graph.links.values, link.fromNode = producer ∧ link.toNode = consumer

/-- Links lead upwards. -/
def Ranked (graph : Graph) (rank : NodeId → Nat) : Prop :=
  ∀ link ∈ graph.links.values, rank link.fromNode < rank link.toNode

/-- Links join nodes of the graph. -/
def Anchored (graph : Graph) : Prop :=
  ∀ link ∈ graph.links.values, link.fromNode ∈ graph.nodes.keys ∧ link.toNode ∈ graph.nodes.keys

instance (graph : Graph) : Decidable graph.Anchored :=
  inferInstanceAs
    (Decidable (∀ link ∈ graph.links.values, link.fromNode ∈ graph.nodes.keys ∧ link.toNode ∈ graph.nodes.keys))

variable {graph : Graph} {rank : NodeId → Nat}

theorem Ranked.acyclic (ranked : graph.Ranked rank) (id : NodeId) : ¬ Relation.TransGen graph.Feeds id id := by
  have hstep : ∀ {a b}, graph.Feeds a b → rank a < rank b := by
    rintro _ _ ⟨link, hlink, rfl, rfl⟩
    exact ranked link hlink
  have hclosure : ∀ {a b}, Relation.TransGen graph.Feeds a b → rank a < rank b := by
    intro a b h
    induction h with
    | single h => exact hstep h
    | tail _ h ih => exact Nat.lt_trans ih (hstep h)
  exact fun h => Nat.lt_irrefl _ (hclosure h)

theorem mem_producers {node producer : NodeId} : producer ∈ graph.producers node ↔ graph.Feeds producer node := by
  unfold producers Feeds
  simp only [mem_map, mem_filter, decide_eq_true_eq]
  constructor
  · rintro ⟨link, ⟨hlink, hto⟩, hfrom⟩
    exact ⟨link, hlink, hfrom, hto⟩
  · rintro ⟨link, hlink, hfrom, hto⟩
    exact ⟨link, ⟨hlink, hto⟩, hfrom⟩

end Graph

/-! ## The search without a bound -/

variable {needs : NodeId → NodeId → Prop} {order : List NodeId}

/-- A search that is bounded by nothing: the nodes that are pending are appended to an order one
after the other, each behind all it depends on, with `path` the nodes whose dependencies are being
placed. There is no result where a node is met on its own path. -/
inductive Searches (producers : NodeId → List NodeId) :
    List NodeId → List NodeId → List NodeId → Option (List NodeId) → Prop
  | finish {path order : List NodeId} : Searches producers path [] order (some order)
  | cycle {path rest order : List NodeId} {node : NodeId} (met : node ∈ path) :
      Searches producers path (node :: rest) order none
  | skip {path rest order : List NodeId} {node : NodeId} {result : Option (List NodeId)} (off : node ∉ path)
      (placed : node ∈ order) (next : Searches producers path rest order result) :
      Searches producers path (node :: rest) order result
  | fail {path rest order : List NodeId} {node : NodeId} (off : node ∉ path) (fresh : node ∉ order)
      (inner : Searches producers (node :: path) (producers node) order none) :
      Searches producers path (node :: rest) order none
  | place {path rest order placed : List NodeId} {node : NodeId} {result : Option (List NodeId)} (off : node ∉ path)
      (fresh : node ∉ order) (inner : Searches producers (node :: path) (producers node) order (some placed))
      (next : Searches producers path rest (placed ++ [node]) result) :
      Searches producers path (node :: rest) order result

/-- Nodes in an order stand behind all they need. -/
def Sorts (needs : NodeId → NodeId → Prop) (order : List NodeId) : Prop :=
  ∀ before node behind, order = before ++ node :: behind → ∀ other, needs node other → other ∈ before

theorem Sorts.nil (needs : NodeId → NodeId → Prop) : Sorts needs [] :=
  fun before node behind h => absurd h (by simp)

/-- An order grows by a node at its end. -/
theorem Sorts.concat {node : NodeId} (sorts : Sorts needs order)
    (placed : ∀ other, needs node other → other ∈ order) :
    Sorts needs (order ++ [node]) := by
  intro before last behind hsplit other hneeds
  rcases eq_nil_or_concat behind with rfl | ⟨front, final, rfl⟩
  · obtain ⟨rfl, hlast⟩ := append_inj' hsplit rfl
    cases hlast
    exact placed other hneeds
  · rw [concat_eq_append, ← cons_append, ← append_assoc] at hsplit
    obtain ⟨hfront, _⟩ := append_inj' hsplit rfl
    exact sorts before last front hfront other hneeds

/-- What is left of an order is in order. -/
theorem Sorts.filter (sorts : Sorts needs order) (keep : NodeId → Bool) :
    Sorts (fun node other => needs node other ∧ keep other = true) (order.filter keep) := by
  rintro before node behind hsplit other ⟨hneeds, hkeep⟩
  obtain ⟨before, rest, horder, rfl, hrest⟩ := filter_eq_append_iff.mp hsplit
  obtain ⟨skipped, behind, rfl, hskipped, _, _⟩ := filter_eq_cons_iff.mp hrest
  rw [← append_assoc] at horder
  rcases mem_append.mp (sorts _ _ _ horder other hneeds) with hmem | hmem
  · exact mem_filter.mpr ⟨hmem, hkeep⟩
  · exact absurd hkeep (hskipped other hmem)

/-- Nodes of an order stand behind all they need. -/
theorem Sorts.idxOf_lt (sorts : Sorts needs order)
    (hnodup : order.Nodup) {node other : NodeId} (hnode : node ∈ order)
    (hneeds : needs node other) : order.idxOf other < order.idxOf node := by
  obtain ⟨before, behind, rfl⟩ := append_of_mem hnode
  have hother : other ∈ before := sorts before node behind rfl other hneeds
  have hfresh : node ∉ before := fun hmem => (nodup_append.mp hnodup).2.2 _ hmem _ mem_cons_self rfl
  rw [idxOf_append_of_mem hother, idxOf_append_of_notMem hfresh]
  exact Nat.lt_of_lt_of_le (idxOf_lt_length_iff.mpr hother) (Nat.le_add_right _ _)

namespace Searches

variable {producers : NodeId → List NodeId}
    {path pending order : List NodeId} {result result' : Option (List NodeId)}

section

variable (search : Searches producers path pending order result)
include search

/-- A search ends in one way only. -/
theorem unique (search' : Searches producers path pending order result') : result = result' := by
  induction search generalizing result' with
  | finish =>
    cases search'
    rfl
  | cycle met =>
    cases search' with
    | cycle => rfl
    | skip off | fail off | place off => exact absurd met off
  | skip off placed next ih =>
    cases search' with
    | cycle met => exact absurd met off
    | skip _ _ next' => exact ih next'
    | fail _ fresh | place _ fresh => exact absurd placed fresh
  | fail off fresh inner ih =>
    cases search' with
    | cycle => rfl
    | skip _ placed => exact absurd placed fresh
    | fail => rfl
    | place _ _ inner' => cases ih inner'
  | place off fresh inner next ih ih' =>
    cases search' with
    | cycle met => exact absurd met off
    | skip _ placed => exact absurd placed fresh
    | fail _ _ inner' => cases ih inner'
    | place _ _ inner' next' =>
      cases ih inner'
      exact ih' next'

/-- What a search does to an order. -/
structure Extends (producers : NodeId → List NodeId) (path pending order order' : List NodeId) : Prop where
  kept : order <+: order'
  placed : pending ⊆ order'
  off : ∀ node ∈ order', node ∈ order ∨ node ∉ path
  nodup : order.Nodup → order'.Nodup
  sorts : Sorts (fun node other => other ∈ producers node) order →
    Sorts (fun node other => other ∈ producers node) order'
  within : ∀ {nodes : List NodeId}, (∀ node ∈ nodes, producers node ⊆ nodes) → pending ⊆ nodes → order ⊆ nodes →
    order' ⊆ nodes

theorem extends_of_some {order' : List NodeId}
    (h : result = some order') : Extends producers path pending order order' := by
  induction search generalizing order' with
  | finish =>
    cases h
    exact ⟨prefix_rfl, nil_subset _, fun _ => .inl, fun h => h, fun h => h, fun _ _ h => h⟩
  | cycle | fail => cases h
  | skip off placed next ih =>
    have rest := ih h
    refine ⟨rest.kept, cons_subset.mpr ⟨rest.kept.subset placed, rest.placed⟩, rest.off, rest.nodup, rest.sorts, ?_⟩
    exact fun closed hpending => rest.within closed (cons_subset.mp hpending).2
  | @place path pending order placed node result off fresh inner next ih ih' =>
    have deps := ih rfl
    have rest := ih' h
    -- The node itself is on the path of the inner search, which keeps it out of the order.
    have hnew : node ∉ placed := fun hmem => (deps.off node hmem).elim fresh fun hoff => hoff mem_cons_self
    refine ⟨?_, ?_, ?_, ?_, ?_, ?_⟩
    · exact deps.kept.trans ((prefix_append _ _).trans rest.kept)
    · exact cons_subset.mpr
        ⟨rest.kept.subset (mem_append_right _ (mem_singleton_self _)), rest.placed⟩
    · intro other hother
      rcases rest.off other hother with hold | hold
      · rcases mem_append.mp hold with hold | hold
        · exact (deps.off other hold).imp_right fun hoff hpath => hoff (.tail _ hpath)
        · exact .inr (mem_singleton.mp hold ▸ off)
      · exact .inr hold
    · intro nodup
      refine rest.nodup (nodup_append.mpr ⟨deps.nodup nodup, nodup_singleton _, ?_⟩)
      rintro other hother last hlast rfl
      exact hnew (mem_singleton.mp hlast ▸ hother)
    · exact fun sorts => rest.sorts ((deps.sorts sorts).concat deps.placed)
    · intro nodes closed hpending horder
      obtain ⟨hnode, hrest⟩ := cons_subset.mp hpending
      refine rest.within closed hrest (append_subset.mpr ⟨deps.within closed (closed node hnode) horder, ?_⟩)
      exact cons_subset.mpr ⟨hnode, nil_subset _⟩

/-- A search that fails has met a cycle: the pending nodes lead to all nodes of the path. -/
theorem exists_cycle (h : result = none)
    (leads : ∀ node ∈ pending, ∀ other ∈ path, Relation.TransGen (fun a b => a ∈ producers b) node other) :
    ∃ node, Relation.TransGen (fun a b => a ∈ producers b) node node := by
  induction search with
  | finish => cases h
  | @cycle path rest order node met => exact ⟨node, leads node mem_cons_self node met⟩
  | skip off placed next ih => exact ih h fun node hnode => leads node (.tail _ hnode)
  | @fail path rest order node off fresh inner ih =>
    refine ih rfl fun producer hproducer other hother => ?_
    rcases mem_cons.mp hother with rfl | hother
    · exact .single hproducer
    · exact .head hproducer (leads node mem_cons_self other hother)
  | place off fresh inner next _ ih => exact ih h fun node hnode => leads node (.tail _ hnode)

end

/-- A search whose depth is bounded finds what the one without a bound does. All nodes of a path
have a producer, so a path without repetition is no longer than the list of such nodes. -/
theorem of_place {consumers : List NodeId}
    (hconsumers : ∀ node, producers node ≠ [] → node ∈ consumers) (depth : Nat)
    (path pending order : List NodeId) (nodup : path.Nodup) (sub : path ⊆ consumers)
    (hdepth : consumers.length < path.length + depth) :
    Searches producers path pending order
      (pending.foldlM (fun order node => Graph.place producers depth path node order) order) := by
  induction depth generalizing path pending order with
  | zero =>
    have hlength := (subperm_of_subset nodup sub).length_le
    omega
  | succ depth ih =>
    induction pending generalizing order with
    | nil => exact .finish
    | cons node rest ihrest =>
      rw [foldlM_cons, Graph.place]
      by_cases hpath : node ∈ path
      · rw [if_pos hpath]
        exact .cycle hpath
      rw [if_neg hpath]
      by_cases horder : node ∈ order
      · rw [if_pos horder]
        exact .skip hpath horder (ihrest order)
      rw [if_neg horder]
      have inner : Searches producers (node :: path) (producers node) order ((producers node).foldlM
          (fun order producer => Graph.place producers depth (node :: path) producer order) order) := by
        cases hnone : producers node with
        | nil => exact .finish
        | cons producer others =>
          have hmem : node ∈ consumers := hconsumers node (by rw [hnone]; exact cons_ne_nil _ _)
          refine ih (node :: path) _ order (nodup_cons.mpr ⟨hpath, nodup⟩)
            (cons_subset.mpr ⟨hmem, sub⟩) ?_
          rw [length_cons]
          omega
      cases hinner : (producers node).foldlM
          (fun order producer => Graph.place producers depth (node :: path) producer order) order with
      | none => exact .fail hpath horder (hinner ▸ inner)
      | some placed => exact .place hpath horder (hinner ▸ inner) (ihrest (placed ++ [node]))

end Searches

/-! ## Orders of graphs -/

namespace Graph

variable {graph : Graph} {rank : NodeId → Nat} {order : List NodeId}

theorem searches_order? (graph : Graph) : Searches graph.producers [] graph.nodes.keys [] graph.order? := by
  refine @Searches.of_place graph.producers (graph.links.values.map Link.toNode) (fun node hnode => ?_) _ [] _ []
    nodup_nil (nil_subset _) ?_
  · obtain ⟨producer, hproducer⟩ := exists_mem_of_ne_nil _ hnode
    obtain ⟨link, hlink, _, rfl⟩ := mem_producers.mp hproducer
    exact mem_map_of_mem hlink
  · simp only [length_map, OrderedMap.values, OrderedMap.size, length_nil]
    omega

/-- Nodes that feed each other are those that a search goes through. -/
theorem transGen_producers : Relation.TransGen (fun a b => a ∈ graph.producers b) = Relation.TransGen graph.Feeds :=
  congrArg _ (funext fun _ => funext fun _ => propext mem_producers)

/-- A graph without cycles has an order. -/
theorem order?_isSome_of_acyclic (acyclic : ∀ id, ¬ Relation.TransGen graph.Feeds id id) :
    graph.order?.isSome = true := by
  cases horder : graph.order? with
  | some order => rfl
  | none =>
    obtain ⟨id, hcycle⟩ := graph.searches_order?.exists_cycle horder fun _ _ _ h => absurd h not_mem_nil
    rw [transGen_producers] at hcycle
    exact absurd hcycle (acyclic id)

theorem Ranked.order?_isSome (ranked : graph.Ranked rank) : graph.order?.isSome = true :=
  order?_isSome_of_acyclic ranked.acyclic

/-- What is known of an order that was found. -/
theorem extends_order? (h : graph.order? = some order) :
    Searches.Extends graph.producers [] graph.nodes.keys [] order :=
  graph.searches_order?.extends_of_some h

/-- Links lead forwards in the order. -/
theorem ranked_order? (anchored : graph.Anchored) (h : graph.order? = some order) : graph.Ranked order.idxOf := by
  have found := extends_order? h
  intro link hlink
  exact (found.sorts (.nil _)).idxOf_lt (found.nodup nodup_nil) (found.placed (anchored link hlink).2)
    (mem_producers.mpr ⟨link, hlink, rfl, rfl⟩)

theorem perm_of_subset (h : graph.order? = some order) (sub : order ⊆ graph.nodes.keys) :
    order.Perm graph.nodes.keys := by
  have found := extends_order? h
  exact (perm_ext_iff_of_nodup (found.nodup nodup_nil) graph.nodes.nodup).mpr fun id =>
    ⟨fun hid => sub hid, fun hid => found.placed hid⟩

theorem perm_order? (anchored : graph.Anchored) (h : graph.order? = some order) : order.Perm graph.nodes.keys := by
  refine perm_of_subset h ((extends_order? h).within
    (fun node _ producer hproducer => ?_) (Subset.refl _) (nil_subset _))
  obtain ⟨link, hlink, rfl, _⟩ := mem_producers.mp hproducer
  exact (anchored link hlink).1

/-- The search for an order ends on every graph, in one way. Where links join nodes of the graph, it
succeeds if and only if the links form no cycle, and then it lists every node once and every link
leads forwards. -/
theorem order?_topological (graph : Graph) :
    (∀ result, Searches graph.producers [] graph.nodes.keys [] result ↔ result = graph.order?) ∧
    (graph.Anchored →
      (graph.order?.isSome = true ↔ ∀ id, ¬ Relation.TransGen graph.Feeds id id) ∧
      ∀ order, graph.order? = some order → order.Perm graph.nodes.keys ∧
        ∀ link ∈ graph.links.values, order.idxOf link.fromNode < order.idxOf link.toNode) := by
  refine ⟨fun result => ⟨fun search => search.unique graph.searches_order?, ?_⟩,
    fun anchored => ⟨⟨fun h => ?_, ?_⟩, ?_⟩⟩
  · rintro rfl
    exact graph.searches_order?
  · obtain ⟨order, horder⟩ := Option.isSome_iff_exists.mp h
    exact (ranked_order? anchored horder).acyclic
  · exact order?_isSome_of_acyclic
  · exact fun order horder => ⟨perm_order? anchored horder, ranked_order? anchored horder⟩

/-- A graph of nodes without ports, with links between some of them. -/
def bare (nodes : List Nat) (links : List (Nat × Nat)) : Graph where
  name := untitled
  nodes := .ofList (nodes.map fun n =>
    (⟨n⟩, { id := ⟨n⟩, kind := "", name := "", role := .regular, inputs := [], outputs := [], properties := [] }))
  links := .ofList (links.zipIdx.map fun ((first, last), n) => (⟨n⟩, ⟨⟨n⟩, ⟨first⟩, ⟨0⟩, ⟨last⟩, ⟨0⟩⟩))

/-- Two ways of different length from the last node to the first one. -/
def detour : Graph := bare [0, 1, 2, 3] [(3, 0), (3, 2), (2, 1), (1, 0)]

/-- Two nodes that feed each other, and a third one. -/
def ring : Graph := bare [0, 1, 2] [(1, 0), (2, 1), (1, 2)]

theorem order?_topological_detour_ring :
    (detour.Anchored ∧ detour.order? = some [⟨3⟩, ⟨2⟩, ⟨1⟩, ⟨0⟩] ∧ ∀ id, ¬ Relation.TransGen detour.Feeds id id) ∧
      ring.Anchored ∧ ∃ id, Relation.TransGen ring.Feeds id id := by
  have hdetour : detour.Anchored := by decide
  have hring : ring.Anchored := by decide
  refine ⟨⟨hdetour, by decide, ((order?_topological detour).2 hdetour).1.mp (by decide)⟩, hring, ?_⟩
  by_contra hnone
  have hsome := ((order?_topological ring).2 hring).1.mpr fun id hcycle => hnone ⟨id, hcycle⟩
  exact absurd hsome (by decide)

end Graph

end NodeScript
