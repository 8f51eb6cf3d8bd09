import NodeScript.Proofs.Build.Run
import NodeScript.Proofs.Decompile.Placement
import NodeScript.Proofs.Graph.Layering

/-!
# Arranging a graph

Every node gets one place, also in a graph with a cycle. The places depend on nothing that a layout
changes, so another layout leaves all nodes where they are. There is no layout if the scale is no
positive number, or if a link makes the order name a node that is missing.
-/

namespace NodeScript

open List

namespace Graph

variable {graph graph' : Graph} {options : LayoutOptions} {placed : List (NodeId × Single × Single)}

/-! ## Which nodes stand in the columns -/

theorem perm_foldl_placeInColumn (todo : List NodeId) (columns : List (List NodeId)) :
    (todo.foldl graph.placeInColumn columns).flatten.Perm (columns.flatten ++ todo) := by
  induction todo generalizing columns with
  | nil => rw [append_nil, foldl_nil]
  | cons node rest ih =>
    obtain ⟨right, _, inserts⟩ := graph.exists_inserts columns node
    refine (ih _).trans ?_
    rw [append_cons]
    exact inserts.perm_flatten.append_right rest

theorem perm_columns (graph : Graph) : graph.columns.flatten.Perm graph.scan :=
  perm_foldl_placeInColumn graph.scan []

/-- The order, if there is one, names nodes of the graph only. -/
def Complete (graph : Graph) : Prop :=
  ∀ order, graph.order? = some order → ∀ id ∈ order, (graph.node? id).isSome = true

theorem isSome_node? {id : NodeId} : (graph.node? id).isSome = true ↔ id ∈ graph.nodes.keys :=
  Option.isSome_iff_exists.trans OrderedMap.mem_keys_iff.symm

/-- Only an order can lead to a node that is missing. -/
theorem complete_iff : graph.Complete ↔ ∀ id ∈ graph.scan, (graph.node? id).isSome = true := by
  unfold Complete scan
  cases graph.order? with
  | none => simp [isSome_node?]
  | some order => simp

theorem exists_order {id : NodeId} (hid : id ∈ graph.scan) (hnode : graph.node? id = none) :
    ∃ order, graph.order? = some order ∧ id ∈ order := by
  unfold scan at hid
  cases horder : graph.order? with
  | none =>
    rw [horder] at hid
    exact absurd (mem_reverse.mp hid) (OrderedMap.get?_eq_none_iff.mp hnode)
  | some order =>
    rw [horder] at hid
    exact ⟨order, rfl, mem_reverse.mp hid⟩

theorem perm_scan (complete : graph.Complete) : graph.scan.Perm graph.nodes.keys := by
  unfold scan
  cases horder : graph.order? with
  | none => exact reverse_perm _
  | some order =>
    exact (reverse_perm order).trans
      (perm_of_subset horder fun id hid => isSome_node?.mp (complete order horder id hid))

/-! ## The places -/

/-- Places for some nodes, or the first of them that is missing. -/
def Placed (graph : Graph) (ids : List NodeId) : Except LayoutError (List (NodeId × Single × Single)) → Prop
  | .ok placed => placed.map Prod.fst = ids ∧ ∀ id ∈ ids, (graph.node? id).isSome = true
  | .error e => ∃ id ∈ ids, graph.node? id = none ∧ e = .nodeNotFound id

theorem placed_columnPlaces (x : Single) (column : List NodeId) (y widest : Single) :
    graph.Placed column ((graph.columnPlaces options x column y widest).map Prod.fst) := by
  induction column generalizing y widest with
  | nil => exact ⟨rfl, fun _ h => absurd h not_mem_nil⟩
  | cons id rest ih =>
    unfold columnPlaces
    cases hnode : graph.node? id with
    | none => exact ⟨id, mem_cons_self, hnode, rfl⟩
    | some node =>
      have htail := ih (y - (graph.nodeHeight node options + options.padding.2)) (widest.max node.width)
      dsimp only
      cases hrest : graph.columnPlaces options x rest (y - (graph.nodeHeight node options + options.padding.2))
          (widest.max node.width) with
      | error e =>
        rw [hrest] at htail
        obtain ⟨other, hother, hmissing⟩ := htail
        exact ⟨other, .tail _ hother, hmissing⟩
      | ok result =>
        rw [hrest] at htail
        exact ⟨congrArg (id :: ·) htail.1, forall_mem_cons.mpr ⟨by rw [hnode]; rfl, htail.2⟩⟩

theorem placed_places (columns : List (List NodeId)) (x : Single) :
    graph.Placed columns.flatten (graph.places options columns x) := by
  induction columns generalizing x with
  | nil => exact ⟨rfl, fun _ h => absurd h not_mem_nil⟩
  | cons column rest ih =>
    unfold places
    have hhead := @placed_columnPlaces graph options x column 0 0
    cases hcolumn : graph.columnPlaces options x column 0 0 with
    | error e =>
      rw [hcolumn] at hhead
      obtain ⟨other, hother, hmissing⟩ := hhead
      exact ⟨other, mem_append_left _ hother, hmissing⟩
    | ok result =>
      rw [hcolumn] at hhead
      have htail := ih (x + (result.2 + options.padding.1))
      change graph.Placed _ ((graph.places options rest (x + (result.2 + options.padding.1))).map (result.1 ++ ·))
      cases hrest : graph.places options rest (x + (result.2 + options.padding.1)) with
      | error e =>
        rw [hrest] at htail
        obtain ⟨other, hother, hmissing⟩ := htail
        exact ⟨other, mem_append_right _ hother, hmissing⟩
      | ok others =>
        rw [hrest] at htail
        refine ⟨?_, forall_mem_append.mpr ⟨hhead.2, htail.2⟩⟩
        rw [map_append, hhead.1, htail.1]
        rfl

/-! ## Places do not depend on places -/

theorem columns_unplaced (graph : Graph) : graph.unplaced.columns = graph.columns := by
  have hkeys : graph.unplaced.nodes.keys = graph.nodes.keys := OrderedMap.keys_map _ _
  have hscan : graph.unplaced.scan = graph.scan := by
    unfold scan order?
    rw [hkeys]
    rfl
  rw [columns, hscan]
  rfl

theorem columnPlaces_unplaced (x : Single) (column : List NodeId) (y widest : Single) :
    graph.unplaced.columnPlaces options x column y widest = graph.columnPlaces options x column y widest := by
  induction column generalizing y widest with
  | nil => rfl
  | cons id rest ih =>
    rw [columnPlaces, columnPlaces, node?_unplaced]
    cases graph.node? id with
    | none => rfl
    | some node =>
      change (graph.unplaced.columnPlaces options x rest (y - (graph.nodeHeight node options + options.padding.2))
        (widest.max node.width) >>= _) = _
      rw [ih]

theorem places_unplaced (columns : List (List NodeId)) (x : Single) :
    graph.unplaced.places options columns x = graph.places options columns x := by
  induction columns generalizing x with
  | nil => rfl
  | cons column rest ih =>
    unfold places
    rw [columnPlaces_unplaced]
    exact congrArg _ (funext fun result => congrArg (· >>= _) (ih _))

/-! ## Moving to the places -/

/-- The graph with nodes moved one after another. -/
def moveAll (graph : Graph) (placed : List (NodeId × Single × Single)) : Graph :=
  placed.foldl (fun graph place => graph.move place.1 place.2) graph

theorem arrange_eq (graph : Graph) (options : LayoutOptions) : graph.arrange options =
    if options.scale.isFinite = true ∧ Single.less 0 options.scale = true then
      (graph.places options graph.columns 0).map graph.moveAll
    else .error (.invalidScale options.scale) := by
  simp only [arrange, Bool.and_eq_true]
  cases graph.places options graph.columns 0 <;> rfl

theorem unplaced_moveAll (graph : Graph) (placed : List (NodeId × Single × Single)) :
    (graph.moveAll placed).unplaced = graph.unplaced := by
  induction placed generalizing graph with
  | nil => rfl
  | cons first rest ih => exact (ih _).trans (unplaced_move graph first.1 first.2)

/-- The node of the key, if there is one, is at the place. -/
def Stands (graph : Graph) (place : NodeId × Single × Single) : Prop :=
  ∀ node, graph.node? place.1 = some node → node.position = place.2

theorem stands_move (graph : Graph) (place other : NodeId × Single × Single)
    (h : place = other ∨ place.1 ≠ other.1 ∧ graph.Stands place) : (graph.move other.1 other.2).Stands place := by
  intro node hnode
  rw [node?_move] at hnode
  obtain ⟨old, hold, rfl⟩ := Option.map_eq_some_iff.mp hnode
  rcases h with rfl | ⟨hne, hstands⟩
  · exact if_pos rfl
  · exact (if_neg hne).trans (hstands old hold)

theorem stands_moveAll (nodup : (placed.map Prod.fst).Nodup) {place : NodeId × Single × Single}
    (h : place ∈ placed ∨ place.1 ∉ placed.map Prod.fst ∧ graph.Stands place) :
    (graph.moveAll placed).Stands place := by
  induction placed generalizing graph with
  | nil => exact (h.resolve_left not_mem_nil).2
  | cons first rest ih =>
    obtain ⟨hfirst, hrest⟩ := nodup_cons.mp nodup
    refine ih hrest ?_
    rcases h with hmem | ⟨hother, hstands⟩
    · rcases mem_cons.mp hmem with rfl | hmem
      · exact .inr ⟨hfirst, stands_move graph _ _ (.inl rfl)⟩
      · exact .inl hmem
    · obtain ⟨hne, hother⟩ := not_or.mp (mt mem_cons.mpr hother)
      exact .inr ⟨hother, stands_move graph _ _ (.inr ⟨hne, hstands⟩)⟩

theorem moveAll_of_stands (h : ∀ place ∈ placed, graph.Stands place) : graph.moveAll placed = graph := by
  induction placed with
  | nil => rfl
  | cons first rest ih =>
    obtain ⟨hfirst, hrest⟩ := forall_mem_cons.mp h
    have hmove : graph.move first.1 first.2 = graph := by
      cases hnode : graph.node? first.1 with
      | none =>
        exact congrArg (fun nodes => { graph with nodes })
          (OrderedMap.modify_of_not_mem (OrderedMap.get?_eq_none_iff.mp hnode) _)
      | some node =>
        refine congrArg (fun nodes => { graph with nodes }) ((OrderedMap.modify_eq_const hnode _).trans ?_)
        rw [← hfirst node hnode]
        exact OrderedMap.modify_self hnode
    exact (congrArg (moveAll · rest) hmove).trans (ih hrest)

/-- What a layout does to a graph. -/
structure Arranges (options : LayoutOptions) (graph graph' : Graph) : Prop where
  nodes : graph.columns.flatten.Perm graph.nodes.keys
  placed : ∃ placed, graph.places options graph.columns 0 = .ok placed ∧
    placed.map Prod.fst = graph.columns.flatten ∧
    ∀ place ∈ placed, (graph'.node? place.1).map Node.position = some place.2
  unmoved : graph'.unplaced = graph.unplaced
  again : graph'.arrange options = .ok graph'

theorem arranges_moveAll (usable : options.scale.isFinite = true ∧ Single.less 0 options.scale = true)
    (hplaces : graph.places options graph.columns 0 = .ok placed) :
    graph.Arranges options (graph.moveAll placed) := by
  have hplaced := @placed_places graph options graph.columns 0
  rw [hplaces] at hplaced
  obtain ⟨hids, hfound⟩ := hplaced
  have complete : graph.Complete := complete_iff.mpr fun id hid => hfound id (graph.perm_columns.mem_iff.mpr hid)
  have hperm := graph.perm_columns.trans (perm_scan complete)
  have hstands : ∀ place ∈ placed, (graph.moveAll placed).Stands place := fun place hmem =>
    stands_moveAll (hids ▸ hperm.nodup_iff.mpr graph.nodes.nodup) (.inl hmem)
  have hunmoved := graph.unplaced_moveAll placed
  refine ⟨hperm, ⟨placed, hplaces, hids, fun place hmem => ?_⟩, hunmoved, ?_⟩
  · have hsome := hfound place.1 (hids ▸ mem_map_of_mem hmem)
    have hkeep := congrArg (fun graph => (graph.node? place.1).isSome) hunmoved
    simp only [node?_unplaced, Option.isSome_map, hsome] at hkeep
    obtain ⟨node, hnode⟩ := Option.isSome_iff_exists.mp hkeep
    rw [hnode, Option.map_some, hstands place hmem node hnode]
  · rw [arrange_eq, if_pos usable, ← columns_unplaced,
      ← places_unplaced, hunmoved, columns_unplaced, places_unplaced,
      hplaces]
    exact congrArg Except.ok (moveAll_of_stands hstands)

/-- A build in which a layout fails keeps all graphs. -/
theorem store_exec_arrange {session : Session} {name : String} {b : Build} {e : LayoutError}
    (hget : b.store.get? name = some graph) (h : graph.arrange session.settings.layout = .error e) :
    (Build.exec (Build.arrange session name) b).2.store = b.store := by
  unfold Build.arrange
  rw [Build.exec_bind_ok (Build.exec_get b), hget]
  dsimp only
  rw [h]
  rfl

/-- A graph has a layout if and only if the scale is a positive number and the order, if there is
one, names nodes of the graph only. Every node then gets one place, nothing else changes, and
another layout changes nothing. Without a layout the error says why, and a build keeps the graph as
it is. -/
theorem arrange_places_nodes (graph : Graph) (options : LayoutOptions) :
    ((∃ graph', graph.arrange options = .ok graph') ↔
      options.scale.isFinite = true ∧ Single.less 0 options.scale = true ∧ graph.Complete) ∧
    (∀ graph', graph.arrange options = .ok graph' → graph.Arranges options graph') ∧
    ∀ e, graph.arrange options = .error e →
      (e = .invalidScale options.scale ∨
        ∃ order id, graph.order? = some order ∧ id ∈ order ∧ graph.node? id = none ∧ e = .nodeNotFound id) ∧
      ∀ (session : Session) (name : String) (b : Build), session.settings.layout = options →
        b.store.get? name = some graph → (Build.exec (Build.arrange session name) b).2.store = b.store := by
  have hbuild : ∀ {e}, graph.arrange options = .error e → ∀ (session : Session) (name : String) (b : Build),
      session.settings.layout = options → b.store.get? name = some graph →
        (Build.exec (Build.arrange session name) b).2.store = b.store :=
    fun he _ _ _ hlayout hget => store_exec_arrange hget (hlayout ▸ he)
  have heq := graph.arrange_eq options
  by_cases usable : options.scale.isFinite = true ∧ Single.less 0 options.scale = true
  · rw [if_pos usable] at heq
    have hplaced := @placed_places graph options graph.columns 0
    cases hplaces : graph.places options graph.columns 0 with
    | error e =>
      rw [hplaces] at hplaced heq
      obtain ⟨id, hid, hnode, rfl⟩ := hplaced
      obtain ⟨order, horder, hmem⟩ := exists_order (graph.perm_columns.mem_iff.mp hid) hnode
      refine ⟨⟨fun ⟨_, h⟩ => absurd (heq.symm.trans h) nofun, fun ⟨_, _, complete⟩ => ?_⟩,
        fun _ h => absurd (heq.symm.trans h) nofun, fun e he => ⟨.inr ?_, hbuild he⟩⟩
      · have hsome := complete order horder id hmem
        rw [hnode] at hsome
        cases hsome
      · cases heq.symm.trans he
        exact ⟨order, id, horder, hmem, hnode, rfl⟩
    | ok placed =>
      rw [hplaces] at hplaced heq
      have complete : graph.Complete := complete_iff.mpr fun id hid =>
        hplaced.2 id (graph.perm_columns.mem_iff.mpr hid)
      refine ⟨⟨fun _ => ⟨usable.1, usable.2, complete⟩, fun _ => ⟨_, heq⟩⟩, fun graph' h => ?_,
        fun _ h => absurd (heq.symm.trans h) nofun⟩
      cases heq.symm.trans h
      exact arranges_moveAll usable hplaces
  · rw [if_neg usable] at heq
    refine ⟨⟨fun ⟨_, h⟩ => absurd (heq.symm.trans h) nofun, fun h => absurd ⟨h.1, h.2.1⟩ usable⟩,
      fun _ h => absurd (heq.symm.trans h) nofun, fun e he => ⟨.inl ?_, hbuild he⟩⟩
    cases heq.symm.trans he
    rfl

end Graph

end NodeScript
