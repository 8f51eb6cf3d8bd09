import NodeScript.Proofs.Decompile.Dependence

/-!
# Nodes that can be reached

From a node the search along links, with or against their direction, finds the nodes to which a path
leads that another node is not on, each of them once. A loop over a stack of nodes ends on every
graph and finds the same. Links are found by the identities of ports, so a port that a link joins
must not be on two nodes.
-/

namespace NodeScript.Graph

open List OrderedMap

variable {graph : Graph} {next : NodeId → List NodeId} {step : NodeId → NodeId → Prop} {start stop id other : NodeId}

/-- The ports that a link joins belong to no other nodes. -/
structure Separate (graph : Graph) : Prop extends graph.InputsApart where
  outputs : ∀ link ∈ graph.links.values, ∀ {id node}, graph.node? id = some node →
    link.fromPort ∈ node.outputs.map Port.id → link.fromNode = id

theorem mem_consumersOf_iff (attached : graph.Attached) (separate : graph.Separate) :
    other ∈ graph.consumersOf id ↔ graph.Feeds id other := by
  rw [mem_consumersOf]
  constructor
  · rintro ⟨node, port, link, hnode, hport, hlink, hfrom, hto⟩
    exact ⟨link, hlink, separate.outputs link hlink hnode (hfrom ▸ mem_map_of_mem hport), hto⟩
  · rintro ⟨link, hlink, rfl, rfl⟩
    obtain ⟨node, hnode, hfrom⟩ := attached.starts link hlink
    obtain ⟨port, hport, hid⟩ := mem_map.mp hfrom
    exact ⟨node, port, link, hnode, hport, hlink, hid.symm, rfl⟩

theorem mem_producersOf_iff (attached : graph.Attached) (separate : graph.Separate) :
    other ∈ graph.producersOf id ↔ graph.Feeds other id := by
  rw [mem_producersOf]
  constructor
  · rintro ⟨node, port, link, hnode, hport, hlink, hto, hfrom⟩
    exact ⟨link, hlink, hfrom, separate.inputs link hlink hnode (hto ▸ mem_map_of_mem hport)⟩
  · rintro ⟨link, hlink, rfl, rfl⟩
    obtain ⟨node, hnode, hto⟩ := attached.ends link hlink
    obtain ⟨port, hport, hid⟩ := mem_map.mp hto
    exact ⟨node, port, link, hnode, hport, hlink, hid.symm, rfl⟩

/-! ## The search -/

/-- A node that is gathered leaves the domain, so it is gathered once. -/
theorem nodup_gather {domain : List NodeId} (h : domain.Nodup) (pending : List NodeId) :
    (gather next domain pending).Nodup := by
  fun_induction gather next domain pending with
  | case1 => exact nodup_nil
  | case2 domain pending node found ih =>
    refine nodup_cons.mpr ⟨fun hmem => ?_, ih (h.erase node)⟩
    obtain ⟨hdomain, _⟩ := gather_induction (P := fun _ => True) _ _ (fun _ _ _ => trivial)
      (fun _ _ _ _ _ _ => trivial) node hmem
    exact h.not_mem_erase hdomain

theorem nodup_eraseDups (ids : List NodeId) : ids.eraseDups.Nodup :=
  match ids with
  | [] => nodup_nil
  | id :: ids => by
    rw [eraseDups_cons]
    exact nodup_cons.mpr ⟨by simp, nodup_eraseDups _⟩
termination_by ids.length
decreasing_by exact Nat.lt_succ_of_le (length_filter_le _ _)

theorem nodup_reachable : (graph.reachable next start stop).Nodup :=
  nodup_gather ((nodup_eraseDups _).filter _) _

/-- A step between two nodes, neither of which is to be met. -/
def Past (step : NodeId → NodeId → Prop) (stop id other : NodeId) : Prop := step id other ∧ id ≠ stop ∧ other ≠ stop

theorem mem_reachable_iff (hnext : ∀ {id other}, other ∈ next id ↔ step id other)
    (hends : ∀ {id other}, other ∈ next id → other ∈ graph.linkEnds) (hne : start ≠ stop) :
    id ∈ graph.reachable next start stop ↔
      id ≠ start ∧ id ≠ stop ∧ Relation.ReflTransGen (Past step stop) start id := by
  constructor
  · intro h
    obtain ⟨hstart, hstop, path⟩ := reachable_induction
      (P := fun id => id ≠ stop → Relation.ReflTransGen (Past step stop) start id)
      (fun id hid hstop => .single ⟨hnext.mp hid, hne, hstop⟩)
      (fun id _ hstop path other hother hstop' => (path hstop).tail ⟨hnext.mp hother, hstop, hstop'⟩) h
    exact ⟨hstart, hstop, path hstop⟩
  · rintro ⟨hstart, -, path⟩
    -- The path may come back to the start, from where all next nodes are found as well.
    have hfound : id = start ∨ id ∈ graph.reachable next start stop := by
      clear hstart
      induction path with
      | refl => exact .inl rfl
      | @tail id other _ past ih =>
        obtain ⟨hstep, _, hstop⟩ := past
        by_cases hstart : other = start
        · exact .inl hstart
        · refine .inr (mem_reachable (hends (hnext.mpr hstep)) hstart hstop ?_)
          rcases ih with rfl | hid
          · exact .inl (hnext.mpr hstep)
          · exact .inr ⟨id, hid, hnext.mpr hstep⟩
    exact hfound.resolve_left hstart

/-! ## The loop -/

section Loop

variable {stack met found : List NodeId}

/-- What is met at a node: the nodes next to it, without the two given ones and those met before,
each of them once. -/
def meets (next : NodeId → List NodeId) (start stop : NodeId) (met : List NodeId) (node : NodeId) : List NodeId :=
  ((next node).filter fun id => id ≠ start ∧ id ≠ stop ∧ id ∉ met).eraseDups

theorem mem_meets {node : NodeId} :
    id ∈ meets next start stop met node ↔ id ∈ next node ∧ id ≠ start ∧ id ≠ stop ∧ id ∉ met := by
  simp [meets]

/-- The search as a loop that nothing bounds: as long as there are nodes on the stack, the topmost
one is taken, and what is met at it goes on the stack. -/
inductive Drains (next : NodeId → List NodeId) (start stop : NodeId) : List NodeId → List NodeId → List NodeId → Prop
  | finish {met : List NodeId} : Drains next start stop [] met met
  | pop {node : NodeId} {stack met found : List NodeId}
      (rest : Drains next start stop ((meets next start stop met node).reverse ++ stack)
        (meets next start stop met node ++ met) found) : Drains next start stop (node :: stack) met found

namespace Drains

section

variable (drains : Drains next start stop stack met found)
include drains

theorem unique {found' : List NodeId}
    (drains' : Drains next start stop stack met found') : found = found' := by
  induction drains with
  | finish =>
    cases drains'
    rfl
  | pop _ ih =>
    cases drains' with
    | pop rest => exact ih rest

omit drains in
/-- The loop ends if all that can still be met is in a list: this gets shorter where something is
met, and else the stack does. -/
theorem exists_found (domain stack met : List NodeId)
    (hnext : ∀ node, ∀ id ∈ meets next start stop met node, id ∈ domain) :
    ∃ found, Drains next start stop stack met found := by
  match stack with
  | [] => exact ⟨met, .finish⟩
  | node :: stack =>
    have hleft : ∀ other, ∀ id ∈ meets next start stop (meets next start stop met node ++ met) other,
        id ∈ domain.filter (· ∉ meets next start stop met node) := by
      intro other id hid
      obtain ⟨hid, hstart, hstop, hmet⟩ := mem_meets.mp hid
      rw [mem_append, not_or] at hmet
      exact mem_filter.mpr ⟨hnext other id (mem_meets.mpr ⟨hid, hstart, hstop, hmet.2⟩), decide_eq_true hmet.1⟩
    obtain ⟨found, rest⟩ := exists_found _ ((meets next start stop met node).reverse ++ stack) _ hleft
    exact ⟨found, .pop rest⟩
termination_by (domain.length, stack.length)
decreasing_by
  cases hnew : meets next start stop met node with
  | nil => simp [Prod.lex_def]
  | cons id rest =>
    refine .left _ _ (length_filter_lt_length_iff_exists.mpr ⟨id, hnext node id (hnew ▸ mem_cons_self), ?_⟩)
    simp

theorem nodup (h : met.Nodup) : found.Nodup := by
  induction drains with
  | finish => exact h
  | pop _ ih => exact ih ((nodup_eraseDups _).append h fun _ hid => (mem_meets.mp hid).2.2.2)

/-- What goes on from a node on the stack to those next to it holds of all that is met. -/
theorem found_induction {P : NodeId → Prop}
    (forward : ∀ node, node = start ∨ P node → ∀ id ∈ next node, id ≠ start → id ≠ stop → P id)
    (hstack : ∀ node ∈ stack, node = start ∨ P node) (hmet : ∀ id ∈ met, P id) : ∀ id ∈ found, P id := by
  induction drains with
  | finish => exact hmet
  | @pop node stack met _ _ ih =>
    rw [forall_mem_cons] at hstack
    have hnew : ∀ id ∈ meets next start stop met node, P id := by
      intro id hid
      obtain ⟨hid, hstart, hstop, _⟩ := mem_meets.mp hid
      exact forward node hstack.1 id hid hstart hstop
    refine ih (forall_mem_append.mpr ⟨fun id hid => .inr (hnew id (mem_reverse.mp hid)), hstack.2⟩) ?_
    exact forall_mem_append.mpr ⟨hnew, hmet⟩

/-- Nodes that have left the stack lead to nodes that have been met, and in the end all nodes
have. -/
theorem closed
    (h : ∀ node, node = start ∨ node ∈ met → node ∈ stack ∨ ∀ id ∈ next node, id ≠ start → id ≠ stop → id ∈ met) :
    ∀ node, node = start ∨ node ∈ found → ∀ id ∈ next node, id ≠ start → id ≠ stop → id ∈ found := by
  induction drains with
  | finish => exact fun node hnode => (h node hnode).resolve_left not_mem_nil
  | @pop top stack met _ _ ih =>
    refine ih fun node hnode => ?_
    by_cases hnew : node ∈ meets next start stop met top
    · exact .inl (mem_append_left _ (mem_reverse.mpr hnew))
    rcases h node (hnode.imp_right fun hmem => (mem_append.mp hmem).resolve_left hnew) with hstack | hclosed
    · rcases mem_cons.mp hstack with rfl | hstack
      · refine .inr fun id hid hstart hstop => ?_
        by_cases hmet : id ∈ met
        · exact mem_append_right _ hmet
        · exact mem_append_left _ (mem_meets.mpr ⟨hid, hstart, hstop, hmet⟩)
      · exact .inl (mem_append_right _ hstack)
    · exact .inr fun id hid hstart hstop => mem_append_right _ (hclosed id hid hstart hstop)

end

end Drains

/-- The loop from a node ends, in one way only, with the nodes that the search finds. -/
def Exhausts (graph : Graph) (next : NodeId → List NodeId) (start stop : NodeId) : Prop :=
  ∃ found, (∀ result, Drains next start stop [start] [] result ↔ result = found) ∧
    found.Perm (graph.reachable next start stop)

theorem exhausts (hends : ∀ {id other}, other ∈ next id → other ∈ graph.linkEnds) (start stop : NodeId) :
    graph.Exhausts next start stop := by
  obtain ⟨found, drains⟩ : ∃ found, Drains next start stop [start] [] found :=
    Drains.exists_found graph.linkEnds [start] [] fun _ _ hid => hends (mem_meets.mp hid).1
  refine ⟨found, fun result => ⟨fun drains' => drains'.unique drains, fun h => h ▸ drains⟩, ?_⟩
  refine (perm_ext_iff_of_nodup (drains.nodup nodup_nil) nodup_reachable).mpr fun id =>
    ⟨fun hid => ?_, fun hid => ?_⟩
  · refine drains.found_induction (P := (· ∈ graph.reachable next start stop)) ?_
      (fun node hnode => .inl (mem_singleton.mp hnode)) (fun _ h => absurd h not_mem_nil) id hid
    rintro node (rfl | hnode) id hid hstart hstop
    · exact mem_reachable (hends hid) hstart hstop (.inl hid)
    · exact mem_reachable (hends hid) hstart hstop (.inr ⟨node, hnode, hid⟩)
  · have hclosed := drains.closed fun node hnode => .inl (mem_singleton.mpr (hnode.resolve_right not_mem_nil))
    obtain ⟨hstart, hstop, hfound⟩ := reachable_induction (P := fun id => id ≠ start → id ≠ stop → id ∈ found)
      (hclosed start (.inl rfl)) (fun node hstart hstop hnode => hclosed node (.inr (hnode hstart hstop))) hid
    exact hfound hstart hstop

end Loop

/-- Where the ports of links are on one node each, the search from a node finds each node other than
the two given ones once to which, or from which, a path of links leads that the second one is not
on. The loop ends with the same nodes. -/
theorem reachable_connects (attached : graph.Attached) (separate : graph.Separate) (hne : start ≠ stop) :
    ((graph.reachable graph.consumersOf start stop).Nodup ∧ ∀ id, id ∈ graph.reachable graph.consumersOf start stop ↔
      id ≠ start ∧ id ≠ stop ∧ Relation.ReflTransGen (Past graph.Feeds stop) start id) ∧
    ((graph.reachable graph.producersOf start stop).Nodup ∧ ∀ id, id ∈ graph.reachable graph.producersOf start stop ↔
      id ≠ start ∧ id ≠ stop ∧ Relation.ReflTransGen (Past graph.Feeds stop) id start) ∧
    graph.Exhausts graph.consumersOf start stop ∧ graph.Exhausts graph.producersOf start stop := by
  have hconsumers : ∀ {id other}, other ∈ graph.consumersOf id → other ∈ graph.linkEnds := by
    intro id other hother
    obtain ⟨_, _, link, _, _, hlink, _, rfl⟩ := mem_consumersOf.mp hother
    exact (mem_linkEnds hlink).2
  have hproducers : ∀ {id other}, other ∈ graph.producersOf id → other ∈ graph.linkEnds := by
    intro id other hother
    obtain ⟨_, _, link, _, _, hlink, _, rfl⟩ := mem_producersOf.mp hother
    exact (mem_linkEnds hlink).1
  refine ⟨⟨nodup_reachable, fun id => ?_⟩, ⟨nodup_reachable, fun id => ?_⟩, exhausts hconsumers start stop,
    exhausts hproducers start stop⟩
  · exact mem_reachable_iff (mem_consumersOf_iff attached separate) hconsumers hne
  · have hswap : Past (fun id other => graph.Feeds other id) stop = Function.swap (Past graph.Feeds stop) := by
      funext id other
      exact propext ⟨fun ⟨h, hid, hother⟩ => ⟨h, hother, hid⟩, fun ⟨h, hother, hid⟩ => ⟨h, hid, hother⟩⟩
    rw [mem_reachable_iff (mem_producersOf_iff attached separate) hproducers hne, hswap, Relation.reflTransGen_swap]

/-- A ring of three nodes and a way to a fourth one. The last node has the number `output` for its
output. -/
def roundabout (output : Nat) : Graph := sketch
  [(1, sketchNode 1 .regular [10] [11] none), (2, sketchNode 2 .regular [20] [21] none),
    (3, sketchNode 3 .regular [30] [31] none), (4, sketchNode 4 .regular [40] [output] none)]
  [(1, 11, 2, 20), (2, 21, 3, 30), (3, 31, 1, 10), (3, 31, 4, 40)]

theorem reachable_connects_roundabout :
    (roundabout 41).Attached ∧ (roundabout 41).Separate ∧
      (roundabout 41).reachable (roundabout 41).consumersOf ⟨1⟩ ⟨4⟩ = [⟨2⟩, ⟨3⟩] ∧
      ∀ id, id = ⟨2⟩ ∨ id = ⟨3⟩ ↔
        id ≠ ⟨1⟩ ∧ id ≠ ⟨4⟩ ∧ Relation.ReflTransGen (Past (roundabout 41).Feeds ⟨4⟩) ⟨1⟩ id := by
  have attached : (roundabout 41).Attached := ⟨by decide, by decide⟩
  have hentries : ∀ link ∈ (roundabout 41).links.values, ∀ entry ∈ (roundabout 41).nodes.entries,
      (link.fromPort ∈ entry.2.outputs.map Port.id → link.fromNode = entry.1) ∧
        (link.toPort ∈ entry.2.inputs.map Port.id → link.toNode = entry.1) := by
    decide
  have separate : (roundabout 41).Separate :=
    ⟨⟨fun link hlink _ _ hnode => (hentries link hlink _ (get?_eq_some_iff.mp hnode)).2⟩,
      fun link hlink _ _ hnode => (hentries link hlink _ (get?_eq_some_iff.mp hnode)).1⟩
  have hfound : (roundabout 41).reachable (roundabout 41).consumersOf ⟨1⟩ ⟨4⟩ = [⟨2⟩, ⟨3⟩] := by decide +kernel
  refine ⟨attached, separate, hfound, fun id => ?_⟩
  have hiff := (reachable_connects attached separate (by decide : (⟨1⟩ : NodeId) ≠ ⟨4⟩)).1.2 id
  rwa [hfound, mem_cons, mem_singleton] at hiff

/-- An output that is on two nodes lets the search go on where no link does. -/
theorem reachable_roundabout_misled :
    (roundabout 11).Attached ∧ ⟨2⟩ ∈ (roundabout 11).reachable (roundabout 11).consumersOf ⟨4⟩ ⟨1⟩ ∧
      ¬ Relation.ReflTransGen (Past (roundabout 11).Feeds ⟨1⟩) ⟨4⟩ ⟨2⟩ := by
  refine ⟨⟨by decide, by decide⟩, by decide +kernel, fun path => ?_⟩
  have hlinks : ∀ link ∈ (roundabout 11).links.values, link.fromNode ≠ ⟨4⟩ := by decide
  rcases Relation.ReflTransGen.cases_head path with heq | ⟨_, ⟨⟨link, hlink, hfrom, _⟩, _⟩, _⟩
  · exact absurd heq (by decide)
  · exact hlinks link hlink hfrom

end NodeScript.Graph
