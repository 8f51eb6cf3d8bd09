import NodeScript.Proofs.Graph.Edits

/-!
# Histories of a graph

The alignment of the boundary, new nodes and new links keep what `Graph.Tended` says, and so does
every sequence of edits. Replacing an input of the interface by one of another type is the only edit
after which a link may join types that do not connect.
-/

namespace NodeScript

open Supply OrderedMap Boundary List

/-! ## Alignment -/

namespace Boundary

variable {direction : Direction} {entries : List Entry} {ports : List Port} {port' port : Port} {s : Supply}
  {entry : Entry}

theorem align_cons_cons (entry : Entry) (port : Port) (s : Supply) :
    align direction (entry :: entries) (port :: ports) s =
      ({ entry.socket direction with id := port.id } :: (align direction entries ports s).1,
        (align direction entries ports s).2) := rfl

theorem align_cons_nil (entry : Entry) (s : Supply) :
    align direction (entry :: entries) [] s =
      ({ entry.socket direction with id := (fresh s).1 } :: (align direction entries [] (fresh s).2).1,
        (align direction entries [] (fresh s).2).2) := rfl

theorem map_toSocket_align (direction : Direction) (entries : List Entry) (ports : List Port) (s : Supply) :
    (align direction entries ports s).1.map Port.toSocket = entries.map fun entry => entry.socket direction := by
  induction entries generalizing ports s with
  | nil => rw [align_nil]; rfl
  | cons entry entries ih =>
    cases ports with
    | nil => rw [align_cons_nil, map_cons, ih, map_cons]
    | cons port ports => rw [align_cons_cons, map_cons, ih, map_cons]

/-- Identities are kept from the front, and the further ones are drawn. -/
theorem renews_align (direction : Direction) (entries : List Entry) (ports : List Port) (s : Supply) :
    Renews s.next (align direction entries ports s).2.next (ports.map Port.id)
      ((align direction entries ports s).1.map Port.id) := by
  induction entries generalizing ports s with
  | nil =>
    rw [align_nil]
    exact Renews.of_sublist (Nat.le_refl _) (nil_sublist _)
  | cons entry entries ih =>
    cases ports with
    | nil =>
      rw [align_cons_nil]
      have hfirst : Renews s.next (fresh s).2.next [] [(fresh s).1] :=
        ⟨[], [(fresh s).1], .refl _, .slnil, draws_fresh s⟩
      exact hfirst.append (ih [] (fresh s).2)
    | cons port ports =>
      rw [align_cons_cons]
      have hfirst : Renews s.next s.next [port.id] [port.id] :=
        Renews.of_sublist (Nat.le_refl _) (Sublist.refl _)
      exact hfirst.append (ih ports s)

/-- A port shows the entry at its place, and has the identity of the port that was there or a new
one. -/
theorem mem_align (h : port' ∈ (align direction entries ports s).1) :
    ∃ (i : Nat) (entry : Entry), entries[i]? = some entry ∧ port'.toSocket = entry.socket direction ∧
      ((∃ port : Port, ports[i]? = some port ∧ port'.id = port.id) ∨ s.next ≤ port'.id.code) := by
  induction entries generalizing ports s with
  | nil =>
    rw [align_nil] at h
    cases h
  | cons entry entries ih =>
    cases ports with
    | nil =>
      rw [align_cons_nil] at h
      rcases mem_cons.mp h with rfl | hrest
      · exact ⟨0, entry, rfl, rfl, Or.inr (le_code_fresh s)⟩
      · obtain ⟨i, found, hfound, hsocket, hid⟩ := ih hrest
        refine ⟨i + 1, found, hfound, hsocket, ?_⟩
        rcases hid with ⟨port, hport, _⟩ | hnew
        · simp at hport
        · exact Or.inr (Nat.le_trans (climbs_fresh s) hnew)
    | cons port ports =>
      rw [align_cons_cons] at h
      rcases mem_cons.mp h with rfl | hrest
      · exact ⟨0, entry, rfl, rfl, Or.inl ⟨port, rfl, rfl⟩⟩
      · obtain ⟨i, found, hfound, hsocket, hid⟩ := ih hrest
        exact ⟨i + 1, found, hfound, hsocket, hid⟩

/-- A port at the place of an entry keeps its identity. -/
theorem mem_align_of_getElem? {i : Nat} (hport : ports[i]? = some port)
    (hentry : entries[i]? = some entry) (s : Supply) :
    ({ entry.socket direction with id := port.id } : Port) ∈ (align direction entries ports s).1 := by
  induction entries generalizing ports i with
  | nil => simp at hentry
  | cons first entries ih =>
    cases ports with
    | nil => simp at hport
    | cons first' ports =>
      rw [align_cons_cons]
      cases i with
      | zero =>
        cases hport
        cases hentry
        exact mem_cons_self
      | succ i => exact mem_cons_of_mem _ (ih hport hentry)

/-- The entries at the same places have the same type. -/
def SameTypes (olds news : List Entry) : Prop :=
  ∀ (i : Nat) (old new : Entry), olds[i]? = some old → news[i]? = some new → new.type = old.type

theorem SameTypes.refl (entries : List Entry) : SameTypes entries entries := by
  intro i old new hold hnew
  rw [hold] at hnew
  cases hnew
  rfl

theorem SameTypes.append (entries more : List Entry) : SameTypes entries (entries ++ more) := by
  intro i old new hold hnew
  rw [List.getElem?_append_left (List.getElem?_eq_some_iff.mp hold).1] at hnew
  exact SameTypes.refl entries i old new hold hnew

theorem SameTypes.take (entries : List Entry) (size : Nat) : SameTypes entries (entries.take size) := by
  intro i old new hold hnew
  rw [getElem?_take] at hnew
  split at hnew
  · exact SameTypes.refl entries i old new hold hnew
  · cases hnew

/-- Replacing an entry by one of its type. -/
theorem SameTypes.set {position : Nat} (h : ∀ old, entries[position]? = some old → entry.type = old.type) :
    SameTypes entries (entries.set position entry) := by
  intro i old new hold hnew
  by_cases hi : i = position
  · subst hi
    rw [List.getElem?_set_self (List.getElem?_eq_some_iff.mp hold).1, Option.some.injEq] at hnew
    rw [← hnew]
    exact h old hold
  · rw [List.getElem?_set_ne (Ne.symm hi)] at hnew
    exact SameTypes.refl entries i old new hold hnew

variable {olds : List Entry} {typed : Bool}

section

variable (shows : ports.map Port.toSocket = olds.map fun entry => entry.socket direction)
include shows

theorem exists_entry {i : Nat}
    (hport : ports[i]? = some port) : ∃ old, olds[i]? = some old ∧ port.toSocket = old.socket direction := by
  have h := congrArg (fun sockets => sockets[i]?) shows
  simp only [getElem?_map, hport, Option.map_some] at h
  obtain ⟨old, hold, hsocket⟩ := Option.map_eq_some_iff.mp h.symm
  exact ⟨old, hold, hsocket.symm⟩

omit shows in
theorem alike_of_sockets {old : Entry} (hid : port'.id = port.id) (hold : port.toSocket = old.socket direction)
    (hnew : port'.toSocket = entry.socket direction) (htype : typed = true → entry.type = old.type) :
    port.Alike typed port' where
  id := hid
  direction := by rw [hold, hnew]; rfl
  multiInput := by rw [hold, hnew]; rfl
  type := fun h => by rw [hold, hnew]; exact htype h

/-- Aligned ports are alike to the ports that showed the old entries. -/
theorem alike_of_mem_align
    (types : typed = true → SameTypes olds entries) (h : port' ∈ (align direction entries ports s).1) :
    (∃ port ∈ ports, port.Alike typed port') ∨ s.next ≤ port'.id.code := by
  obtain ⟨i, entry, hentry, hsocket, ⟨port, hport, hid⟩ | hnew⟩ := mem_align h
  · obtain ⟨old, hold, hsocket'⟩ := exists_entry shows hport
    exact Or.inl ⟨port, mem_of_getElem? hport, alike_of_sockets hid hsocket' hsocket fun ht =>
      types ht i old entry hold hentry⟩
  · exact Or.inr hnew

/-- A port that is not beyond the entries has its like after the alignment. -/
theorem exists_alike_align
    (types : typed = true → SameTypes olds entries) (hport : port ∈ ports)
    (hkept : port.id ∉ (ports.drop entries.length).map Port.id) (s : Supply) :
    ∃ port' ∈ (align direction entries ports s).1, port.Alike typed port' := by
  obtain ⟨i, hi⟩ := mem_iff_getElem?.mp hport
  have hlt : i < entries.length := by
    by_contra hge
    refine hkept (mem_map_of_mem (mem_iff_getElem?.mpr ⟨i - entries.length, ?_⟩))
    rw [getElem?_drop, Nat.add_sub_cancel' (Nat.not_lt.mp hge)]
    exact hi
  obtain ⟨old, hold, hsocket⟩ := exists_entry shows hi
  have hentry : entries[i]? = some entries[i] := getElem?_eq_getElem hlt
  exact ⟨_, mem_align_of_getElem? hi hentry s, alike_of_sockets rfl hsocket rfl fun ht =>
    types ht i old _ hold hentry⟩

end

/-! ## Aligning a node -/

variable {old new : Interface} {node : Node}

section

variable (new : Interface) (node : Node) (s : Supply)

theorem alignNode_eq : alignNode new node s =
    match node.role with
    | .groupInput => ({ node with outputs := (align .output new.inputs node.outputs s).1 },
        (align .output new.inputs node.outputs s).2)
    | .groupOutput => ({ node with inputs := (align .input new.outputs node.inputs s).1 },
        (align .input new.outputs node.inputs s).2)
    | _ => (node, s) := by
  unfold alignNode
  cases node.role <;> rfl

theorem role_alignNode :
    (alignNode new node s).1.role = node.role ∧ (alignNode new node s).1.pairedOutput = node.pairedOutput ∧
      (alignNode new node s).1.id = node.id := by
  rw [alignNode_eq]
  split <;> exact ⟨rfl, rfl, rfl⟩

theorem shows_alignNode : Graph.Shows new (alignNode new node s).1 := by
  rw [alignNode_eq]
  split
  next hrole =>
    refine ⟨fun _ => map_toSocket_align _ _ _ _, fun h => ?_⟩
    change node.role = _ at h
    rw [hrole] at h
    cases h
  next hrole =>
    refine ⟨fun h => ?_, fun _ => map_toSocket_align _ _ _ _⟩
    change node.role = _ at h
    rw [hrole] at h
    cases h
  next hin hout => exact ⟨fun h => absurd h hin, fun h => absurd h hout⟩

theorem renews_alignNode :
    Renews s.next (alignNode new node s).2.next node.portIds (alignNode new node s).1.portIds := by
  have hsame : ∀ (ids : List PortId) (next : Nat), Renews next next ids ids := fun ids next =>
    Renews.of_sublist (Nat.le_refl next) (Sublist.refl ids)
  rw [alignNode_eq]
  split
  · simp only [Node.portIds, Node.ports, map_append]
    exact (hsame _ s.next).append (renews_align _ _ _ s)
  · simp only [Node.portIds, Node.ports, map_append]
    exact (renews_align _ _ _ s).append (hsame _ _)
  · exact hsame _ _

end

theorem renews_runEntries (new : Interface) (entries : List (NodeId × Node)) (s : Supply) :
    Renews s.next (runEntries (alignNode new) entries s).2.next
      ((entries.map Prod.snd).flatMap Node.portIds)
      (((runEntries (alignNode new) entries s).1.map Prod.snd).flatMap Node.portIds) := by
  induction entries generalizing s with
  | nil => exact Renews.of_sublist (Nat.le_refl _) (Sublist.refl _)
  | cons e rest ih => exact (renews_alignNode new e.2 s).append (ih (alignNode new e.2 s).2)

theorem alike_of_mem_alignNode (shows : Graph.Shows old node)
    (inputs : typed = true → SameTypes old.inputs new.inputs)
    (outputs : typed = true → SameTypes old.outputs new.outputs) (h : port' ∈ (alignNode new node s).1.ports) :
    (∃ port ∈ node.ports, port.Alike typed port') ∨ s.next ≤ port'.id.code := by
  rw [alignNode_eq] at h
  split at h
  next hrole =>
    rcases mem_append.mp h with hin | hout
    · exact Or.inl ⟨port', mem_append_left _ hin, .refl typed port'⟩
    · rcases alike_of_mem_align (shows.inputs hrole) inputs hout with ⟨port, hport, halike⟩ | hnew
      · exact Or.inl ⟨port, mem_append_right _ hport, halike⟩
      · exact Or.inr hnew
  next hrole =>
    rcases mem_append.mp h with hin | hout
    · rcases alike_of_mem_align (shows.outputs hrole) outputs hin with ⟨port, hport, halike⟩ | hnew
      · exact Or.inl ⟨port, mem_append_left _ hport, halike⟩
      · exact Or.inr hnew
    · exact Or.inl ⟨port', mem_append_right _ hout, .refl typed port'⟩
  next => exact Or.inl ⟨port', h, .refl typed port'⟩

theorem exists_alike_alignNode (shows : Graph.Shows old node)
    (inputs : typed = true → SameTypes old.inputs new.inputs)
    (outputs : typed = true → SameTypes old.outputs new.outputs) (hport : port ∈ node.ports)
    (hkept : port.id ∉ surplus new node) (s : Supply) :
    ∃ port' ∈ (alignNode new node s).1.ports, port.Alike typed port' := by
  unfold surplus at hkept
  rw [alignNode_eq]
  split
  next hrole =>
    simp only [hrole] at hkept
    rcases mem_append.mp hport with hin | hout
    · exact ⟨port, mem_append_left _ hin, .refl typed port⟩
    · obtain ⟨port', hport', halike⟩ := exists_alike_align (shows.inputs hrole) inputs hout hkept s
      exact ⟨port', mem_append_right _ hport', halike⟩
  next hrole =>
    simp only [hrole] at hkept
    rcases mem_append.mp hport with hin | hout
    · obtain ⟨port', hport', halike⟩ := exists_alike_align (shows.outputs hrole) outputs hin hkept s
      exact ⟨port', mem_append_left _ hport', halike⟩
    · exact ⟨port, mem_append_right _ hout, .refl typed port⟩
  next => exact ⟨port, hport, .refl typed port⟩

/-- A node that shows the interface stays as it is. -/
theorem alignNode_of_shows (shows : Graph.Shows old node) (s : Supply) : alignNode old node s = (node, s) := by
  have hsame : ∀ {direction : Direction} {entries : List Entry} {ports : List Port},
      ports.map Port.toSocket = entries.map (fun entry => entry.socket direction) →
      align direction entries ports s = (ports, s) := by
    intro direction entries ports h
    have happend := align_append h [] s
    rwa [append_nil, align_nil, append_nil] at happend
  rw [alignNode_eq]
  split
  next hrole => rw [hsame (shows.inputs hrole)]
  next hrole => rw [hsame (shows.outputs hrole)]
  next => rfl

theorem surplus_subset (interface : Interface) (node : Node) : surplus interface node ⊆ node.portIds := by
  unfold surplus Node.portIds Node.ports
  rw [map_append]
  split
  · exact fun id hid => mem_append_right _ (((drop_sublist _ _).map _).subset hid)
  · exact fun id hid => mem_append_left _ (((drop_sublist _ _).map _).subset hid)
  · exact nil_subset _

theorem surplus_of_shows (shows : Graph.Shows old node) : surplus old node = [] := by
  have hnil : ∀ {direction : Direction} {entries : List Entry} {ports : List Port},
      ports.map Port.toSocket = entries.map (fun entry => entry.socket direction) →
      (ports.drop entries.length).map Port.id = [] := by
    intro direction entries ports h
    have hlength : ports.length = entries.length := by simpa using congrArg length h
    rw [← hlength, drop_length]
    rfl
  unfold surplus
  split
  next hrole => exact hnil (shows.inputs hrole)
  next hrole => exact hnil (shows.outputs hrole)
  next => rfl

end Boundary

/-! ## Steps on all nodes -/

namespace OrderedMap

variable {κ α : Type} {f : α → StateM Supply α} {k : κ} {s : Supply}

theorem mem_runEntries (climbs : ∀ a, Supply.Climbs (f a)) {entries : List (κ × α)} {b : α}
    (h : (k, b) ∈ (runEntries f entries s).1) : ∃ a s', (k, a) ∈ entries ∧ s.next ≤ s'.next ∧
      (f a s').2.next ≤ (runEntries f entries s).2.next ∧ b = (f a s').1 := by
  induction entries generalizing s with
  | nil => cases h
  | cons e rest ih =>
    rcases mem_cons.mp h with heq | hrest
    · cases heq
      refine ⟨e.2, s, mem_cons_self, Nat.le_refl _, ?_, rfl⟩
      exact climbs_runEntries climbs rest (f e.2 s).2
    · obtain ⟨a, s', ha, hle, hle', rfl⟩ := ih hrest
      exact ⟨a, s', mem_cons_of_mem _ ha, Nat.le_trans (climbs e.2 s) hle, hle', rfl⟩

theorem mem_runEntries_of_mem {entries : List (κ × α)} (s : Supply) {a : α} (h : (k, a) ∈ entries) :
    ∃ s', (k, (f a s').1) ∈ (runEntries f entries s).1 := by
  induction entries generalizing s with
  | nil => cases h
  | cons e rest ih =>
    rcases mem_cons.mp h with rfl | hrest
    · exact ⟨s, mem_cons_self⟩
    · obtain ⟨s', hmem⟩ := ih (f e.2 s).2 hrest
      exact ⟨s', mem_cons_of_mem _ hmem⟩

variable [DecidableEq κ]

theorem get?_mapState (climbs : ∀ a, Supply.Climbs (f a)) {m : OrderedMap κ α} {b : α}
    (h : (m.mapState f s).1.get? k = some b) : ∃ a s', m.get? k = some a ∧ s.next ≤ s'.next ∧
      (f a s').2.next ≤ (m.mapState f s).2.next ∧ b = (f a s').1 := by
  obtain ⟨a, s', ha, hle, hle', hb⟩ := mem_runEntries climbs (get?_eq_some_iff.mp h)
  exact ⟨a, s', get?_eq_some_iff.mpr ha, hle, hle', hb⟩

theorem get?_mapState_of_get? {m : OrderedMap κ α} (s : Supply) {a : α} (h : m.get? k = some a) :
    ∃ s', (m.mapState f s).1.get? k = some (f a s').1 := by
  obtain ⟨s', hmem⟩ := mem_runEntries_of_mem (f := f) s (get?_eq_some_iff.mp h)
  exact ⟨s', get?_eq_some_iff.mpr hmem⟩

end OrderedMap

namespace Graph

variable {graph graph' : Graph} {typed : Bool} {next next' : Nat} {s : Supply} {node : Node} {link : Link}

/-- A graph with another interface, after the alignment. -/
theorem Tended.withInterface (tended : graph.Tended s.next) (typed : Bool) (new : Interface)
    (inputs : typed = true → Boundary.SameTypes graph.interface.inputs new.inputs)
    (outputs : typed = true → Boundary.SameTypes graph.interface.outputs new.outputs) :
    (graph.withInterface new s).1.Tended (graph.withInterface new s).2.next ∧
      Carried typed s.next (graph.withInterface new s).2.next graph (graph.withInterface new s).1 := by
  have hclimbs : ∀ node, Supply.Climbs (alignNode new node) := climbs_alignNode new
  have hnodes : (graph.withInterface new s).1.nodes = (graph.nodes.mapState (alignNode new) s).1 := rfl
  have hnode : ∀ {id node'}, (graph.withInterface new s).1.node? id = some node' → ∃ node s',
      graph.node? id = some node ∧ s.next ≤ s'.next ∧ node' = (alignNode new node s').1 := by
    intro id node' h
    obtain ⟨node, s', hold, hle, _, heq⟩ := OrderedMap.get?_mapState hclimbs h
    exact ⟨node, s', hold, hle, heq⟩
  have carried : Carried typed s.next (graph.withInterface new s).2.next graph (graph.withInterface new s).1 := by
    refine ⟨climbs_mapState hclimbs graph.nodes s, ?_, ?_, filter_sublist, ?_⟩
    · rw [portIds, portIds, hnodes]
      exact Boundary.renews_runEntries new graph.nodes.entries s
    · intro id node' hnode'
      obtain ⟨node, s', hold, hle, rfl⟩ := hnode hnode'
      refine ⟨node, hold, fun port' hport' => ?_⟩
      rcases Boundary.alike_of_mem_alignNode (tended.shows hold) inputs outputs hport' with halike | hnew
      · exact Or.inl halike
      · exact Or.inr (Nat.le_trans hle hnew)
    · intro link hlink id node port hold hport htouches
      have hkept : port.id ∉ surplus new node := by
        intro hmem
        have hdropped : port.id ∈ graph.nodes.values.flatMap (surplus new) :=
          mem_flatMap.mpr ⟨node, mem_values_iff.mpr ⟨id, hold⟩, hmem⟩
        have hfalse := mem_dropLinks { graph with interface := new } hlink port.id hdropped
        rw [htouches] at hfalse
        cases hfalse
      obtain ⟨s', hnode'⟩ := OrderedMap.get?_mapState_of_get? (f := alignNode new) s hold
      obtain ⟨port', hport', halike⟩ := Boundary.exists_alike_alignNode (tended.shows hold) inputs outputs hport
        hkept s'
      exact ⟨_, port', hnode', hport', halike⟩
  refine ⟨tended.carry carried ?_ ?_, carried⟩
  · intro id node' hnode'
    obtain ⟨node, s', _, _, rfl⟩ := hnode hnode'
    exact Boundary.shows_alignNode new node s'
  · intro id node' exit hnode' hexit
    obtain ⟨node, s', hold, _, rfl⟩ := hnode hnode'
    obtain ⟨hrole, hpaired, _⟩ := Boundary.role_alignNode new node s'
    obtain ⟨hinner, other, hother, hinner'⟩ := tended.paired hold (hpaired ▸ hexit)
    obtain ⟨s'', hother'⟩ := OrderedMap.get?_mapState_of_get? (f := alignNode new) s hother
    exact ⟨hrole ▸ hinner, _, hother', (Boundary.role_alignNode new other s'').1 ▸ hinner'⟩

/-! ## New nodes and links -/

theorem Tended.node?_eq_none {id : NodeId} (tended : graph.Tended next) (h : next ≤ id.code) :
    graph.node? id = none :=
  Option.eq_none_iff_forall_ne_some.mpr fun _ hfound => absurd (tended.codes hfound) (Nat.not_lt.mpr h)

theorem node?_withNode_of {id : NodeId} {found : Node} (hnone : graph.node? node.id = none)
    (h : graph.node? id = some found) : (graph.withNode node).node? id = some found := by
  have hne : id ≠ node.id := by
    rintro rfl
    rw [hnone] at h
    cases h
  rw [node?_withNode, if_neg hne]
  exact h

theorem Ends.withNode {output input : Port}
    (ends : graph.Ends link output input) (hnone : graph.node? node.id = none) :
    (graph.withNode node).Ends link output input := by
  obtain ⟨⟨source, hsource, houtput⟩, ⟨target, htarget, hinput⟩⟩ := ends
  exact ⟨⟨source, node?_withNode_of hnone hsource, houtput⟩, ⟨target, node?_withNode_of hnone htarget, hinput⟩⟩

theorem Tended.withNode (tended : graph.Tended next) (le : next ≤ node.id.code) (lt : node.id.code < next')
    (nodup : node.portIds.Nodup) (codes : ∀ id ∈ node.portIds, next ≤ id.code ∧ id.code < next')
    (shows : Shows graph.interface node) (unpaired : node.pairedOutput = none) :
    (graph.withNode node).Tended next' := by
  have hle : next ≤ next' := Nat.le_trans le (Nat.le_of_lt lt)
  have hnone := tended.node?_eq_none le
  have look := graph.node?_withNode node
  have hids : (graph.withNode node).portIds = graph.portIds ++ node.portIds := by
    simp only [portIds, Graph.withNode, values,
      entries_insert_of_not_mem (get?_eq_none_iff.mp hnone)]
    simp
  refine ⟨⟨?joins, ?single⟩, ?codes, ?portCodes, ?linkCodes, ?distinct, ?shows, ?paired⟩
  case joins =>
    intro link hlink
    obtain ⟨hne, output, input, hends, hdirections⟩ := tended.joins link hlink
    exact ⟨hne, output, input, hends.withNode hnone, hdirections⟩
  case single =>
    intro id found port hfound hport hdirection hmulti
    rcases node?_cases look hfound with ⟨rfl, rfl⟩ | ⟨_, h⟩
    · have hnil := tended.linksTo_eq_nil (codes port.id (mem_map_of_mem hport)).1
      exact Nat.le_trans (Nat.le_of_eq (congrArg length hnil)) (Nat.zero_le _)
    · exact tended.single h hport hdirection hmulti
  case codes =>
    intro id found hfound
    rcases node?_cases look hfound with ⟨rfl, rfl⟩ | ⟨_, h⟩
    · exact lt
    · exact Nat.lt_of_lt_of_le (tended.codes h) hle
  case portCodes =>
    intro id hid
    rw [hids] at hid
    rcases mem_append.mp hid with h | h
    · exact Nat.lt_of_lt_of_le (tended.portCodes id h) hle
    · exact (codes id h).2
  case linkCodes => exact fun id hid => Nat.lt_of_lt_of_le (tended.linkCodes id hid) hle
  case distinct =>
    rw [hids]
    refine nodup_append.mpr ⟨tended.distinct, nodup, fun a ha b hb hab => ?_⟩
    have hlt := tended.portCodes a ha
    have hge := (codes b hb).1
    rw [hab] at hlt
    omega
  case shows =>
    intro id found hfound
    rcases node?_cases look hfound with ⟨rfl, rfl⟩ | ⟨_, h⟩
    · exact shows
    · exact tended.shows h
  case paired =>
    intro id found exit hfound hexit
    rcases node?_cases look hfound with ⟨rfl, rfl⟩ | ⟨_, h⟩
    · rw [unpaired] at hexit
      cases hexit
    · obtain ⟨hinner, other, hother, hinner'⟩ := tended.paired h hexit
      exact ⟨hinner, other, node?_withNode_of hnone hother, hinner'⟩

theorem WellTyped.withNode (h : graph.WellTyped) (hnone : graph.node? node.id = none) :
    (graph.withNode node).WellTyped := by
  intro link hlink
  obtain ⟨output, input, hends, hconnects⟩ := h link hlink
  exact ⟨output, input, hends.withNode hnone, hconnects⟩

/-- The ends of a link that may be added. -/
theorem ends_of_checkLink (check : graph.checkLink link.fromNode link.fromPort link.toNode link.toPort = .ok ()) :
    ∃ output input, graph.Ends link output input ∧ output.direction = .output ∧ input.direction = .input ∧
      output.type.connectsTo input.type = true ∧
      (input.multiInput = true ∨ graph.isLinked link.toPort = false) ∧ link.fromNode ≠ link.toNode := by
  obtain ⟨source, target, output, input, hsource, htarget, houtput, hinput, hout, hin, hconnects, hfree, hne⟩ :=
    graph.checkLink_eq_ok.mp check
  exact ⟨output, input, ⟨⟨source, hsource, Node.port?_eq_some houtput⟩,
    ⟨target, htarget, Node.port?_eq_some hinput⟩⟩,
    hout, hin, hconnects, hfree, hne⟩

theorem Tended.withLink (tended : graph.Tended next) (link : Link) (le : next ≤ link.id.code)
    (lt : link.id.code < next')
    (check : graph.checkLink link.fromNode link.fromPort link.toNode link.toPort = .ok ()) :
    (graph.withLink link).Tended next' ∧ (graph.WellTyped → (graph.withLink link).WellTyped) := by
  have hfree : link.id ∉ graph.links.keys := fun h => absurd (tended.linkCodes _ h) (Nat.not_lt.mpr le)
  have hle : next ≤ next' := Nat.le_trans le (Nat.le_of_lt lt)
  obtain ⟨output, input, hends, hout, hin, hconnects, hroom, hne⟩ := ends_of_checkLink check
  have hnodes : ∀ {other : Link} {output input : Port}, graph.Ends other output input →
      (graph.withLink link).Ends other output input := fun h => ⟨h.source, h.target⟩
  refine ⟨{ tended.mono hle with joins := ?joins, single := ?single, linkCodes := ?linkCodes }, ?typed⟩
  case joins =>
    intro other hother
    rcases graph.mem_values_withLink hfree hother with hold | rfl
    · obtain ⟨hne', output', input', hends', hdirections⟩ := tended.joins other hold
      exact ⟨hne', output', input', hnodes hends', hdirections⟩
    · exact ⟨hne, output, input, hnodes hends, hout, hin⟩
  case single =>
    intro id node port hnode hport hdirection hmulti
    refine graph.length_linksTo_withLink hfree (tended.single hnode hport hdirection hmulti) hmulti fun hto => ?_
    -- The new link has its end to itself.
    obtain ⟨target, htarget, hinput, hid⟩ := hends.target
    obtain ⟨_, rfl⟩ := port_unique tended.distinct hnode htarget hport hinput (hto.symm.trans hid.symm)
    exact hroom
  case linkCodes =>
    intro id hid
    rw [graph.keys_withLink hfree, mem_append, mem_singleton] at hid
    rcases hid with hold | rfl
    · exact Nat.lt_of_lt_of_le (tended.linkCodes id hold) hle
    · exact lt
  case typed =>
    intro typed other hother
    rcases graph.mem_values_withLink hfree hother with hold | rfl
    · obtain ⟨output', input', hends', hconnects'⟩ := typed other hold
      exact ⟨output', input', hnodes hends', hconnects'⟩
    · exact ⟨output, input, hnodes hends, hconnects⟩

/-- A new node, aligned if it is a boundary node. All others are aligned already. -/
theorem Tended.addNode_eq (tended : graph.Tended next) (fresh : ∀ id ∈ node.id :: node.portIds, next ≤ id.code) :
    graph.addNode node s = (graph.withNode (alignNode graph.interface node s).1,
      (alignNode graph.interface node s).2) := by
  unfold Graph.addNode
  by_cases hrole : node.role.isBoundary = true
  · rw [if_pos hrole]
    have hget : (graph.nodes.insert node.id node).get? node.id = some node :=
      get?_insert_self
    have hothers : ∀ id found, (graph.nodes.insert node.id node).get? id = some found → id ≠ node.id →
        ∀ s, alignNode graph.interface found s = (found, s) := by
      intro id found hfound hne s
      rw [get?_insert, if_neg hne] at hfound
      exact Boundary.alignNode_of_shows (tended.shows hfound) s
    have hmap := mapState_single hget hothers s
    have hsame : (alignNode graph.interface node s).1.id = node.id :=
      (Boundary.role_alignNode graph.interface node s).2.2
    -- No link touches a port of the new node.
    have hlinks : graph.links.filter (fun link => !(((graph.nodes.insert node.id node).values.flatMap
        (surplus graph.interface)).any link.touchesPort)) = graph.links := by
      refine ext (filter_eq_self.mpr fun e he => ?_)
      have hlink : e.2 ∈ graph.links.values := mem_map_of_mem he
      obtain ⟨_, output, input, ⟨⟨source, hsource, houtput, hfrom⟩, ⟨target, htarget, hinput, hto⟩⟩, _⟩ :=
        tended.joins e.2 hlink
      have hfromCode := tended.portCodes _ (mem_portIds hsource houtput)
      have htoCode := tended.portCodes _ (mem_portIds htarget hinput)
      rw [Bool.not_eq_true', any_eq_false]
      intro port hport
      obtain ⟨found, hfound, hsurplus⟩ := mem_flatMap.mp hport
      obtain ⟨id, hid⟩ := mem_values_iff.mp hfound
      rw [get?_insert] at hid
      split at hid
      next =>
        cases hid
        have hmem : port ∈ node.portIds := Boundary.surplus_subset graph.interface node hsurplus
        have hcode := fresh port (.tail _ hmem)
        simp only [Link.touchesPort, Bool.or_eq_true, decide_eq_true_eq, not_or]
        rw [← hfrom, ← hto]
        constructor
        · rintro rfl
          omega
        · rintro rfl
          omega
      next =>
        rw [Boundary.surplus_of_shows (tended.shows hid)] at hsurplus
        cases hsurplus
    change (({ graph with
        nodes := ((graph.nodes.insert node.id node).mapState (alignNode graph.interface) s).1 } :
        Graph).dropLinks _, ((graph.nodes.insert node.id node).mapState (alignNode graph.interface) s).2) = _
    rw [hmap, modify_insert]
    simp only [Graph.dropLinks, hlinks, Graph.withNode, hsame]
  · rw [if_neg hrole]
    have hinner : Shows graph.interface node := shows_of_inner (by simpa using hrole)
    rw [Boundary.alignNode_of_shows hinner]
    rfl

/-- A new node of a kind, as it stands in the graph. -/
theorem Tended.addNode (tended : graph.Tended s.next) (kind : NodeKind) :
    (graph.addNode (Node.ofKind kind s).1 (Node.ofKind kind s).2).1.Tended
        (graph.addNode (Node.ofKind kind s).1 (Node.ofKind kind s).2).2.next ∧
      (graph.WellTyped → (graph.addNode (Node.ofKind kind s).1 (Node.ofKind kind s).2).1.WellTyped) := by
  have hdraws := Node.draws_ofKind kind s
  generalize hmade : Node.ofKind kind s = made at hdraws ⊢
  obtain ⟨node, s'⟩ := made
  have hunpaired : node.pairedOutput = none := by
    rw [← show (Node.ofKind kind s).1 = node by rw [hmade]]
    rfl
  dsimp only at hdraws ⊢
  have hfresh : ∀ id ∈ node.id :: node.portIds, s.next ≤ id.code := fun id hid => (hdraws.range id hid).1
  rw [tended.addNode_eq hfresh]
  have hrenews := Boundary.renews_alignNode graph.interface node s'
  obtain ⟨hrole, hpaired, hid⟩ := Boundary.role_alignNode graph.interface node s'
  have hnodup := hrenews.nodup (nodup_cons.mp hdraws.nodup).2 fun id hmem =>
    (hdraws.range id (.tail _ hmem)).2
  have hlt := hrenews.code_lt fun id hmem => (hdraws.range id (.tail _ hmem)).2
  have hge : ∀ id ∈ (alignNode graph.interface node s').1.portIds, s.next ≤ id.code := by
    obtain ⟨kept, drawn, perm, sub, draws⟩ := hrenews
    intro id hmem
    rcases mem_append.mp (perm.mem_iff.mp hmem) with h | h
    · exact hfresh id (mem_cons_of_mem _ (sub.subset h))
    · exact Nat.le_trans hdraws.le (draws.range id h).1
  have hcode := hdraws.range node.id mem_cons_self
  have hle := climbs_alignNode graph.interface node s'
  refine ⟨tended.withNode (hid ▸ hcode.1) (hid ▸ Nat.lt_of_lt_of_le hcode.2 hle) hnodup
    (fun id hmem => ⟨hge id hmem, hlt id hmem⟩) (Boundary.shows_alignNode _ _ _) (hpaired.trans hunpaired), ?_⟩
  exact fun typed => typed.withNode (tended.node?_eq_none (hid ▸ hcode.1))

/-- Whether a link joins types that connect, if both of its ends are there. -/
def connects? (graph : Graph) (link : Link) : Option Bool := do
  let source ← graph.node? link.fromNode
  let target ← graph.node? link.toNode
  let output ← source.port? link.fromPort
  let input ← target.port? link.toPort
  return output.type.connectsTo input.type

theorem WellTyped.connects? (h : graph.WellTyped)
    (distinct : graph.portIds.Nodup) (hlink : link ∈ graph.links.values) :
    graph.connects? link = some true := by
  have hport : ∀ {id : NodeId} {node : Node} {port : Port} {portId : PortId}, graph.node? id = some node →
      port ∈ node.ports → port.id = portId → node.port? portId = some port := by
    rintro id node port _ hnode hport rfl
    refine Node.port?_of_mem ?_ hport
    exact (nodup_flatMap.mp distinct).1 node (mem_values_iff.mpr ⟨id, hnode⟩)
  obtain ⟨output, input, ⟨⟨source, hsource, houtput, hfrom⟩, ⟨target, htarget, hinput, hto⟩⟩, hconnects⟩ :=
    h link hlink
  simp [Graph.connects?, hsource, htarget, hport hsource houtput hfrom, hport htarget hinput hto, hconnects]

theorem tended_clear (graph : Graph) (next : Nat) : graph.clear.Tended next where
  joins := fun _ h => by cases h
  single := fun h => by cases h
  codes := fun h => by cases h
  portCodes := fun _ h => by cases h
  linkCodes := fun _ h => by cases h
  distinct := nodup_nil
  shows := fun h => by cases h
  paired := fun h => by cases h

end Graph

/-! ## Sequences of edits -/

namespace Edit

open NodeScript.Graph

variable {graph : Graph} {s : Supply}

/-- The edit puts an input of another type in the place of one. -/
def retypes (graph : Graph) : Edit → Bool
  | .replaceInput position declaration =>
    graph.interface.inputs[position]?.any fun entry => entry.type ≠ declaration.type
  | _ => false

/-- What one edit keeps. -/
theorem tended_apply (edit : Edit) (tended : graph.Tended s.next) :
    (edit.apply graph s).1.1.Tended (edit.apply graph s).2.next ∧
      (edit.retypes graph = false → graph.WellTyped → (edit.apply graph s).1.1.WellTyped) := by
  have hinputs : ∀ {s : Supply} {news : List Entry}, graph.Tended s.next →
      Boundary.SameTypes graph.interface.inputs news →
      (graph.setInputs news s).1.Tended (graph.setInputs news s).2.next ∧
        (graph.WellTyped → (graph.setInputs news s).1.WellTyped) := by
    intro s news tended types
    obtain ⟨htended, carried⟩ := tended.withInterface true { graph.interface with inputs := news }
      (fun _ => types) fun _ => .refl _
    exact ⟨htended, fun typed => typed.carry carried⟩
  have houtputs : ∀ {s : Supply} {news : List Entry}, graph.Tended s.next →
      Boundary.SameTypes graph.interface.outputs news →
      (graph.setOutputs news s).1.Tended (graph.setOutputs news s).2.next ∧
        (graph.WellTyped → (graph.setOutputs news s).1.WellTyped) := by
    intro s news tended types
    obtain ⟨htended, carried⟩ := tended.withInterface true { graph.interface with outputs := news }
      (fun _ => .refl _) fun _ => types
    exact ⟨htended, fun typed => typed.carry carried⟩
  have hmint : ∀ declaration : Declaration, graph.Tended (declaration.mint s).2.next := fun declaration =>
    tended.mono (climbs_declaration declaration s)
  cases edit with
  | addNode kind =>
    obtain ⟨htended, htyped⟩ := tended.addNode kind
    exact ⟨htended, fun _ => htyped⟩
  | connect fromNode fromPort toNode toPort =>
    rw [Edit.apply, bind_apply, Build.connect_apply]
    cases check : graph.checkLink fromNode fromPort toNode toPort with
    | error e => exact ⟨tended, fun _ typed => typed⟩
    | ok _ =>
      obtain ⟨htended, htyped⟩ := tended.withLink
        ⟨(fresh s).1, fromNode, fromPort, toNode, toPort⟩ (le_code_fresh s)
        (code_fresh_lt s) check
      exact ⟨htended, fun _ => htyped⟩
  | setProperty id name value =>
    rw [Edit.apply]
    cases found : graph.node? id with
    | none => exact ⟨tended, fun _ typed => typed⟩
    | some node =>
      dsimp only
      cases hset : node.setProperty name value with
      | error e => exact ⟨tended, fun _ typed => typed⟩
      | ok node' =>
        refine ⟨tended.setProperty found hset, fun _ typed => ?_⟩
        exact typed.carry (carried_setProperty true s.next found hset)
  | addInput declaration =>
    obtain ⟨htended, htyped⟩ := hinputs (hmint declaration) (.append _ [(declaration.mint s).1])
    exact ⟨htended, fun _ => htyped⟩
  | replaceInput position declaration =>
    rw [Edit.apply, bind_apply, bind_apply]
    unfold Graph.replaceInput
    split
    · refine ⟨?_, fun hkeeps => ?_⟩
      · exact ((hmint declaration).withInterface false _ (fun h => by cases h) fun h => by cases h).1
      · refine (hinputs (hmint declaration) (.set fun old hold => ?_)).2
        simp only [Edit.retypes, hold, Option.any_some, decide_eq_false_iff_not, ne_eq, not_not] at hkeeps
        exact hkeeps.symm
    · exact ⟨hmint declaration, fun _ typed => typed⟩
  | truncateInputs size =>
    obtain ⟨htended, htyped⟩ := hinputs tended (.take _ size)
    exact ⟨htended, fun _ => htyped⟩
  | addOutput declaration =>
    obtain ⟨htended, htyped⟩ := houtputs (hmint declaration) (.append _ [(declaration.mint s).1])
    exact ⟨htended, fun _ => htyped⟩
  | clearOutputs =>
    obtain ⟨htended, htyped⟩ := houtputs tended (.take _ 0)
    exact ⟨htended, fun _ => htyped⟩
  | align =>
    obtain ⟨htended, htyped⟩ := hinputs tended (.refl _)
    exact ⟨htended, fun _ => htyped⟩
  | pairZone entry exit =>
    rw [Edit.apply]
    cases hpair : graph.pairZone entry exit with
    | error e => exact ⟨tended, fun _ typed => typed⟩
    | ok graph' =>
      obtain ⟨node, other, hentry, hexit, hinner, hinner', rfl⟩ := pairZone_eq_ok hpair
      refine ⟨tended.update hentry (carried_pair true s.next hentry exit) rfl (shows_of_inner hinner)
        fun exit' h => ?_, fun _ typed =>
          typed.carry (carried_pair true s.next hentry exit)⟩
      cases h
      exact ⟨hinner, other, hexit, hinner'⟩
  | clearZoneItems entry =>
    rw [Edit.apply]
    cases hclear : graph.clearZoneItems entry with
    | error e => exact ⟨tended, fun _ typed => typed⟩
    | ok graph' =>
      obtain ⟨htended, htyped⟩ := tended.clearZoneItems hclear
      exact ⟨htended, fun _ => htyped⟩
  | addZoneItem entry name type =>
    obtain ⟨htended, htyped⟩ := tended.addZoneItem entry name type
    rw [Edit.apply, bind_apply]
    cases hresult : graph.addZoneItem entry name type s with
    | mk result s' =>
      obtain ⟨graph', error⟩ := result
      rw [hresult] at htended htyped
      cases error with
      | none => exact ⟨htended, fun _ => htyped⟩
      | some e => exact ⟨htended, fun _ => htyped⟩
  | clear =>
    exact ⟨tended_clear graph s.next, fun _ _ _ hlink => by cases hlink⟩

/-- No edit of the sequence puts an input of another type in the place of one. -/
def keepTypes : List Edit → Graph → Supply → Bool
  | [], _, _ => true
  | edit :: rest, graph, s =>
    !edit.retypes graph && keepTypes rest (edit.apply graph s).1.1 (edit.apply graph s).2

theorem tended_applyAll (edits : List Edit) (tended : graph.Tended s.next) :
    (applyAll edits graph s).1.Tended (applyAll edits graph s).2.next ∧
      (keepTypes edits graph s = true → graph.WellTyped → (applyAll edits graph s).1.WellTyped) := by
  induction edits generalizing graph s with
  | nil => exact ⟨tended, fun _ typed => typed⟩
  | cons edit rest ih =>
    obtain ⟨htended, htyped⟩ := tended_apply edit tended
    obtain ⟨hrest, hrestTyped⟩ := ih htended
    refine ⟨hrest, fun hkeep typed => ?_⟩
    rw [keepTypes, Bool.and_eq_true, Bool.not_eq_true'] at hkeep
    exact hrestTyped hkeep.2 (htyped hkeep.1 typed)

/-- Whatever edits are made of a new graph, and whether they succeed or fail, every link runs from
an output of one node to an input of another, and an input takes one link unless it takes any
number. -/
theorem wellLinked_applyAll (edits : List Edit) (name : String) (s : Supply) :
    (applyAll edits { name } s).1.WellLinked :=
  (tended_applyAll edits (tended_clear { name } s.next)).1.toWellLinked

/-- Links keep joining types that connect, as long as no input of the interface gives way to one of
another type. -/
theorem wellTyped_applyAll (edits : List Edit) (name : String) (s : Supply)
    (keep : keepTypes edits { name } s = true) : (applyAll edits { name } s).1.WellTyped :=
  (tended_applyAll edits (tended_clear { name } s.next)).2 keep fun _ h => by cases h

section Retyping

/-- Two nodes, an input of the interface that feeds the second, and another input in its place. -/
def replacement (type : SocketType) : List Edit :=
  [.addNode { id := groupInputKind, name := "Group Input", category := .input, role := .groupInput },
    .addNode
      { id := "GeometryNodeTransform", name := "Transform Geometry", category := .geometry
        inputs := [{ Socket.input "Geometry" .geometry with id := ⟨0⟩ }] },
    .addInput { name := "Geometry", type := .geometry },
    .connect ⟨0⟩ ⟨4⟩ ⟨1⟩ ⟨2⟩,
    .replaceInput 0 { name := "Other", type }]

/-- Replacing the input by one of the same type keeps the link and its types. -/
theorem wellTyped_replacement : keepTypes (replacement .geometry) { name := "G" } { next := 0 } = true ∧
    (applyAll (replacement .geometry) { name := "G" } { next := 0 }).1.links.size = 1 ∧
    (applyAll (replacement .geometry) { name := "G" } { next := 0 }).1.WellTyped :=
  ⟨by decide +kernel, by decide +kernel, wellTyped_applyAll _ _ _ (by decide +kernel)⟩

/-- Replacing it by one of another type leaves a link from a string to a geometry. -/
theorem not_wellTyped_replacement :
    ¬ (applyAll (replacement .string) { name := "G" } { next := 0 }).1.WellTyped := by
  intro typed
  have distinct := (tended_applyAll (replacement .string) (tended_clear { name := "G" } 0)
    (s := { next := 0 })).1.distinct
  have hconnects : ∀ link ∈ (applyAll (replacement .string) { name := "G" } { next := 0 }).1.links.values,
      (applyAll (replacement .string) { name := "G" } { next := 0 }).1.connects? link = some true :=
    fun _ hlink => typed.connects? distinct hlink
  exact absurd hconnects (by decide +kernel)

end Retyping

end Edit

end NodeScript
