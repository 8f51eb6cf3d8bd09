import NodeScript.Proofs.Decompile.Visits
import NodeScript.Proofs.Graph.Regions

/-!
# Bodies of zones

Where no zone is inside another one, the body that is found for a zone holds the nodes that read
what its entry shows, and every such node that the sink depends on.
-/

namespace NodeScript

open List

/-! ## Reachable nodes -/

namespace Graph

variable {graph : Graph} {next : NodeId → List NodeId} {start stop : NodeId} {P : NodeId → Prop} {id other : NodeId}
  {span : Span}

/-- What holds of the first nodes and goes on from node to node holds of all that is gathered. -/
theorem gather_induction (domain pending : List NodeId) (first : ∀ id ∈ pending, id ∈ domain → P id)
    (step : ∀ id ∈ domain, P id → ∀ other ∈ next id, other ∈ domain → P other) :
    ∀ id ∈ gather next domain pending, id ∈ domain ∧ P id := by
  fun_induction gather next domain pending with
  | case1 => exact fun _ h => absurd h not_mem_nil
  | case2 domain pending node found ih =>
    have hmem : node ∈ domain := contains_iff_mem.mp (find?_some found)
    have hnode : P node := first node (mem_of_find?_eq_some found) hmem
    have ih := ih (fun id hid hdomain => by
        have hdomain := mem_of_mem_erase hdomain
        rcases mem_append.mp hid with hid | hid
        · exact step node hmem hnode id hid hdomain
        · exact first id hid hdomain)
      (fun id hid hP other hother hdomain =>
        step id (mem_of_mem_erase hid) hP other hother (mem_of_mem_erase hdomain))
    intro id hid
    rcases mem_cons.mp hid with rfl | hid
    · exact ⟨hmem, hnode⟩
    · exact ⟨mem_of_mem_erase (ih id hid).1, (ih id hid).2⟩

/-- All first nodes are gathered, and with a node all that come next. -/
theorem gather_closed (domain pending : List NodeId) :
    (∀ id ∈ pending, id ∈ domain → id ∈ gather next domain pending) ∧
      ∀ id ∈ gather next domain pending, ∀ other ∈ next id, other ∈ domain → other ∈ gather next domain pending := by
  fun_induction gather next domain pending with
  | case1 domain pending found =>
    refine ⟨fun id hid hdomain => ?_, fun _ h => absurd h not_mem_nil⟩
    exact absurd (contains_iff_mem.mpr hdomain) (find?_eq_none.mp found id hid)
  | case2 domain pending node found ih =>
    have hrest : ∀ {id}, id ∈ next node ++ pending → id ∈ domain →
        id ∈ node :: gather next (domain.erase node) (next node ++ pending) := by
      intro id hid hdomain
      by_cases heq : id = node
      · exact heq ▸ mem_cons_self
      · exact mem_cons_of_mem _ (ih.1 id hid ((mem_erase_of_ne heq).mpr hdomain))
    refine ⟨fun id hid hdomain => hrest (mem_append_right _ hid) hdomain, ?_⟩
    intro id hid other hother hdomain
    rcases mem_cons.mp hid with rfl | hid
    · exact hrest (mem_append_left _ hother) hdomain
    · by_cases heq : other = node
      · exact heq ▸ mem_cons_self
      · exact mem_cons_of_mem _ (ih.2 id hid other hother ((mem_erase_of_ne heq).mpr hdomain))

theorem mem_domain :
    id ∈ graph.linkEnds.filter (fun id => id ≠ start && id ≠ stop) ↔
      id ∈ graph.linkEnds ∧ id ≠ start ∧ id ≠ stop := by
  simp

/-- What holds behind the start and goes on from node to node holds of all that can be reached. -/
theorem reachable_induction (first : ∀ id ∈ next start, P id)
    (step : ∀ id, id ≠ start → id ≠ stop → P id → ∀ other ∈ next id, P other)
    (h : id ∈ graph.reachable next start stop) :
    id ≠ start ∧ id ≠ stop ∧ P id := by
  obtain ⟨hdomain, hP⟩ := gather_induction _ _ (fun id hid _ => first id hid) (fun id hid hP other hother _ =>
    step id (mem_domain.mp hid).2.1 (mem_domain.mp hid).2.2 hP other hother) id h
  exact ⟨(mem_domain.mp hdomain).2.1, (mem_domain.mp hdomain).2.2, hP⟩

/-- A node behind the start, or behind one that can be reached, can be reached. -/
theorem mem_reachable (hend : id ∈ graph.linkEnds) (hstart : id ≠ start) (hstop : id ≠ stop)
    (h : id ∈ next start ∨ ∃ before ∈ graph.reachable next start stop, id ∈ next before) :
    id ∈ graph.reachable next start stop := by
  have hdomain := mem_domain.mpr ⟨hend, hstart, hstop⟩
  obtain ⟨hfirst, hnext⟩ := gather_closed (graph.linkEnds.filter fun id => id ≠ start && id ≠ stop) (next start)
  rcases h with h | ⟨before, hbefore, h⟩
  · exact hfirst id h hdomain
  · exact hnext before hbefore id h hdomain

theorem mem_linkEnds {link : Link} (hlink : link ∈ graph.links.values) :
    link.fromNode ∈ graph.linkEnds ∧ link.toNode ∈ graph.linkEnds := by
  constructor <;>
  · refine mem_eraseDups.mpr (mem_flatMap.mpr ⟨link, hlink, ?_⟩)
    simp

theorem mem_producersOf : other ∈ graph.producersOf id ↔ ∃ node port link,
    graph.node? id = some node ∧ port ∈ node.inputs ∧ link ∈ graph.links.values ∧ link.toPort = port.id ∧
      link.fromNode = other := by
  unfold producersOf linksTo
  cases hnode : graph.node? id with
  | none => simp
  | some node => simp [and_assoc]

theorem mem_consumersOf : other ∈ graph.consumersOf id ↔ ∃ node port link,
    graph.node? id = some node ∧ port ∈ node.outputs ∧ link ∈ graph.links.values ∧ link.fromPort = port.id ∧
      link.toNode = other := by
  unfold consumersOf linksFrom
  cases hnode : graph.node? id with
  | none => simp
  | some node => simp [and_assoc]

/-- A zone of the graph. -/
structure Spanned (graph : Graph) (span : Span) : Prop where
  eq : span = graph.span span.entry span.exit
  found : ∃ node, graph.node? span.entry = some node ∧
    node.role.isZoneEntry = true ∧ node.pairedOutput = some span.exit
  exit : ∃ node, graph.node? span.exit = some node ∧ node.role.isZoneExit = true

section Keyed

variable (keyed : ∀ {id node}, graph.node? id = some node → node.role.isZoneEntry = true → node.id = id)
include keyed

theorem mem_spans : span ∈ graph.spans ↔ graph.Spanned span := by
  constructor
  · intro h
    obtain ⟨⟨entry, exit, last⟩, hpaired, rfl⟩ := mem_map.mp h
    obtain ⟨hpaired, hlast⟩ := mem_filter.mp hpaired
    obtain ⟨node, hnode, heq⟩ := mem_filterMap.mp hpaired
    obtain ⟨hvalue, hrole⟩ := mem_filter.mp hnode
    obtain ⟨id, hid⟩ := OrderedMap.mem_values_iff.mp hvalue
    cases hother : node.pairedOutput with
    | none =>
      rw [hother] at heq
      cases heq
    | some other =>
      rw [hother, Option.bind_some] at heq
      cases hfound : graph.node? other with
      | none =>
        rw [hfound] at heq
        cases heq
      | some found =>
        rw [hfound] at heq
        cases heq
        refine ⟨rfl, ⟨entry, ?_, hrole, hother⟩, last, hfound, hlast⟩
        change graph.node? entry.id = some entry
        rw [keyed hid hrole]
        exact hid
  · rintro ⟨heq, ⟨node, hnode, hrole, hpaired⟩, last, hlast, hexit⟩
    rw [heq]
    refine mem_map.mpr ⟨(node, span.exit, last), mem_filter.mpr ⟨mem_filterMap.mpr
      ⟨node, mem_filter.mpr ⟨OrderedMap.mem_values_iff.mpr ⟨_, hnode⟩, hrole⟩, ?_⟩, hexit⟩, ?_⟩
    · rw [hpaired, Option.bind_some, hlast]
      rfl
    · dsimp only
      rw [keyed hnode hrole]

theorem spanned_of_entryOf? {entry exit : NodeId} (h : Span.entryOf? graph.spans exit = some entry) :
    graph.Spanned (graph.span entry exit) := by
  obtain ⟨span, hspan, rfl⟩ := Option.map_eq_some_iff.mp h
  have hmem := mem_reverse.mp (mem_of_find?_eq_some hspan)
  have hexit : span.exit = exit := by simpa using find?_some hspan
  have spanned := (mem_spans keyed).mp hmem
  rw [← hexit, ← spanned.eq]
  exact spanned

/-- An exit depends on its entry, if no other entry is paired with it. -/
theorem entryOf?_exit (spanned : graph.Spanned span)
    (single : ∀ entry, graph.Spanned (graph.span entry span.exit) → entry = span.entry) :
    Span.entryOf? graph.spans span.exit = some span.entry := by
  cases hentry : Span.entryOf? graph.spans span.exit with
  | none =>
    have hnone := find?_eq_none.mp (Option.map_eq_none_iff.mp hentry) span
      (mem_reverse.mpr ((mem_spans keyed).mpr spanned))
    exact absurd (decide_eq_true rfl) hnone
  | some entry => rw [single entry (spanned_of_entryOf? keyed hentry)]

end Keyed

/-- Every entry makes one zone at most. -/
theorem spans_nodup (keyed : ∀ {id node}, graph.node? id = some node → node.id = id) :
    (graph.spans.map Span.entry).Nodup := by
  have hentries : ∀ nodes : List Node, ((nodes.filterMap fun entry => entry.pairedOutput.bind fun exit =>
      (graph.node? exit).map fun node => (entry, exit, node)).map fun pair => pair.1.id).Sublist
        (nodes.map Node.id) := by
    intro nodes
    induction nodes with
    | nil => exact .slnil
    | cons entry rest ih =>
      rw [filterMap_cons, map_cons]
      cases entry.pairedOutput with
      | none => exact ih.cons _
      | some exit =>
        rw [Option.bind_some]
        cases graph.node? exit with
        | none => exact ih.cons _
        | some node => exact ih.cons_cons _
  have hkeys : graph.nodes.values.map Node.id = graph.nodes.keys := by
    unfold OrderedMap.values OrderedMap.keys
    rw [map_map]
    exact map_congr_left fun entry hentry => keyed (OrderedMap.get?_eq_some_iff.mpr hentry)
  have hsub : (graph.spans.map Span.entry).Sublist graph.nodes.keys := by
    rw [← hkeys]
    unfold spans
    rw [map_map]
    exact (filter_sublist.map _).trans ((hentries _).trans (filter_sublist.map _))
  exact hsub.nodup graph.nodes.nodup

end Graph

/-! ## Zones side by side -/

namespace Draft

variable {rules : Rules} {draft : Draft}

/-- The sink depends on the node. -/
def Live (draft : Draft) (id : NodeId) : Prop :=
  Relation.ReflTransGen (fun id other => other ∈ draft.graph.dependencies draft.graph.spans id) draft.sink id

/-- A node reads inside a zone and does not end it. -/
structure Inside (draft : Draft) (span : Span) (id : NodeId) : Prop where
  found : (draft.graph.node? id).isSome = true
  ne_source : id ≠ draft.source
  ne_exit : id ≠ span.exit
  reads : span.entry ∈ (draft.info id).reads

namespace Sound

variable {span : Span} {id : NodeId} {other : NodeId} {link : Link}

section

variable (sound : draft.Sound rules)
include sound

theorem mem_spans : span ∈ draft.graph.spans ↔ draft.graph.Spanned span :=
  Graph.mem_spans fun hnode _ => sound.keyed hnode

theorem spanned_of_entryOf? {entry : NodeId}
    (h : Span.entryOf? draft.graph.spans id = some entry) : draft.graph.Spanned (draft.graph.span entry id) :=
  Graph.spanned_of_entryOf? (fun hnode _ => sound.keyed hnode) h

/-- The links out of a node. -/
theorem exists_link_of_consumer (h : other ∈ draft.graph.consumersOf id) :
    ∃ link ∈ draft.graph.links.values, link.fromNode = id ∧ link.toNode = other := by
  obtain ⟨node, port, link, hnode, hport, hlink, hfrom, hto⟩ := Graph.mem_consumersOf.mp h
  exact ⟨link, hlink, sound.link_from hlink hnode hport hfrom, hto⟩

theorem exists_link_of_producer (h : other ∈ draft.graph.producersOf id) :
    ∃ link ∈ draft.graph.links.values, link.toNode = id ∧ link.fromNode = other := by
  obtain ⟨node, port, link, hnode, hport, hlink, hto, hfrom⟩ := Graph.mem_producersOf.mp h
  exact ⟨link, hlink, sound.link_to hlink hnode hport hto, hfrom⟩

theorem mem_consumersOf (hlink : link ∈ draft.graph.links.values) :
    link.toNode ∈ draft.graph.consumersOf link.fromNode := by
  obtain ⟨node, port, hnode, hid, hreferable⟩ := (sound.linked link hlink).start
  exact Graph.mem_consumersOf.mpr ⟨node, port, link, hnode, hreferable.mem, hlink, hid.symm, rfl⟩

theorem mem_producersOf (hlink : link ∈ draft.graph.links.values) :
    link.fromNode ∈ draft.graph.producersOf link.toNode := by
  obtain ⟨node, port, hnode, hmem, hid, _⟩ := (sound.linked link hlink).finish
  exact Graph.mem_producersOf.mpr ⟨node, port, link, hnode, hmem, hlink, hid.symm, rfl⟩

/-- A node that the sink depends on is completed, and it has an output or it is an entry. -/
theorem shown_of_live (coupled : draft.Coupled) (live : draft.Live id) :
    id = draft.sink ∨ id ∈ draft.done ∧ ∃ node, draft.graph.node? id = some node ∧
      (node.outputs ≠ [] ∨ node.pairedOutput.isSome = true) := by
  induction live with
  | refl => exact .inl rfl
  | @tail reader id _ step ih =>
    right
    rcases mem_append.mp step with hentry | hproducer
    · obtain ⟨_, ⟨node, hnode, _, hpaired⟩, _⟩ := sound.spanned_of_entryOf? (Option.mem_toList.mp hentry)
      have partners := coupled id node reader hnode hpaired
      have hdone : reader ∈ draft.done := by
        rcases ih with hsink | hdone
        · have hreads := partners.reads
          rw [hsink, sound.sink.2.1] at hreads
          cases hreads
        · exact hdone.1
      exact ⟨(partners.first hdone).1, node, hnode, .inr (by rw [hpaired]; rfl)⟩
    · obtain ⟨_, _, link, _, _, hlink, _, rfl⟩ := Graph.mem_producersOf.mp hproducer
      have linked := sound.linked link hlink
      obtain ⟨node, port, hnode, _, referable⟩ := linked.start
      exact ⟨linked.ready, node, hnode, .inl (ne_nil_of_mem referable.mem)⟩

/-- What a completed node shows from inside a zone is inside of it, and so is what its entry
shows. -/
theorem mem_shows (coupled : draft.Coupled) (spanned : draft.graph.Spanned span)
    (hdone : id ∈ draft.done) (h : id = span.entry ∨ draft.Inside span id) : span.entry ∈ (draft.info id).shows := by
  obtain ⟨first, hfirst, _, hpaired⟩ := spanned.found
  have hsource : id ≠ draft.source := by
    rcases h with rfl | inside
    · exact (coupled _ first _ hfirst hpaired).outer
    · exact inside.ne_source
  obtain ⟨node, hnode, complete⟩ := (sound.complete id hdone).resolve_left hsource
  -- A node that is paired with nothing is not the entry of the zone.
  have hinside : node.pairedOutput = none → draft.Inside span id := by
    intro unpaired
    refine h.resolve_left ?_
    rintro rfl
    rw [hnode] at hfirst
    cases hfirst
    rw [unpaired] at hpaired
    cases hpaired
  cases complete with
  | plain spec listed inner shape unpaired path called => exact path ▸ (hinside unpaired).reads
  | group function name interface args callee called shape unpaired path graph refers =>
    exact path ▸ (hinside unpaired).reads
  | entry kind items exit paired shape exitShape path exitReads exitShows named found =>
    rw [path]
    rcases h with rfl | inside
    · exact mem_cons_self
    · exact mem_cons_of_mem _ inside.reads
  | exit kind items entry entryNode done found paired unpaired shape entryShape reads =>
    have inside := hinside unpaired
    have hmem := inside.reads
    rw [reads] at hmem
    refine (mem_cons.mp hmem).resolve_left ?_
    rintro rfl
    rw [hfirst] at found
    cases found
    rw [hpaired] at paired
    exact inside.ne_exit (Option.some.inj paired).symm

/-- The nodes of a body are inside the zone. -/
theorem inside_of_mem_body (coupled : draft.Coupled) (spanned : draft.graph.Spanned span)
    (hid : id ∈ span.body) : draft.Inside span id := by
  rw [spanned.eq] at hid
  have hnext : ∀ id, (id = span.entry ∨ draft.Inside span id) → ∀ other ∈ draft.graph.consumersOf id,
      (draft.graph.node? other).isSome = true ∧ other ≠ draft.source ∧ span.entry ∈ (draft.info other).reads := by
    intro id hid other hother
    obtain ⟨link, hlink, rfl, rfl⟩ := sound.exists_link_of_consumer hother
    have linked := sound.linked link hlink
    obtain ⟨node, _, hnode, _⟩ := linked.finish
    exact ⟨by rw [hnode]; rfl, sound.to_ne_source hlink,
      linked.scope.subset (sound.mem_shows coupled spanned linked.ready hid)⟩
  obtain ⟨_, hexit, hfound, hsource, hreads⟩ := Graph.reachable_induction
    (P := fun id => (draft.graph.node? id).isSome = true ∧ id ≠ draft.source ∧ span.entry ∈ (draft.info id).reads)
    (hnext _ (.inl rfl)) (fun id _ hexit hP => hnext id (.inr ⟨hP.1, hP.2.1, hexit, hP.2.2⟩)) (mem_filter.mp hid).1
  exact ⟨hfound, hsource, hexit, hreads⟩

end

end Sound

namespace Flat

variable {span : Span} {id : NodeId} (flat : draft.Flat rules) (spanned : draft.graph.Spanned span)
include flat spanned

theorem partners : draft.Partners span.entry span.exit := by
  obtain ⟨node, hnode, _, hpaired⟩ := spanned.found
  exact flat.coupled _ node _ hnode hpaired

theorem reads_exit :
    (draft.info span.exit).reads = [span.entry] := by
  have partners := flat.partners spanned
  obtain ⟨node, hnode⟩ := Option.isSome_iff_exists.mp partners.found
  have hshows := flat.reads_eq hnode (flat.sound.inner_of_reads hnode partners.ne partners.reads) partners.reads
  rw [partners.reads, hshows]

/-- An entry that is completed reads outside of its zone and shows inside. -/
theorem entry_info (hdone : span.entry ∈ draft.done) :
    (draft.info span.entry).reads = [] ∧ (draft.info span.entry).shows = [span.entry] := by
  obtain ⟨node, hnode, hrole, hpaired⟩ := spanned.found
  cases flat.place hdone with
  | source same =>
    obtain ⟨_, _, source, hsource, hsourceRole, _⟩ := flat.sound.source
    rw [same, hsource] at hnode
    cases hnode
    rw [hsourceRole] at hrole
    cases hrole
  | call other found unpaired =>
    rw [hnode] at found
    cases found
    rw [unpaired] at hpaired
    cases hpaired
  | entry other kind items exit last found paired shape reads shows => exact ⟨reads, shows⟩
  | exit other entry entryNode found plain =>
    rw [hnode] at found
    cases found
    rw [hrole] at plain
    cases plain

/-- A completed node that reads inside a zone and does not end it shows inside the zone. -/
theorem shows_eq (hdone : id ∈ draft.done)
    (hsource : id ≠ draft.source) (hexit : id ≠ span.exit) (hreads : (draft.info id).reads = [span.entry]) :
    (draft.info id).shows = [span.entry] := by
  cases flat.place hdone with
  | source same => exact absurd same hsource
  | call node found unpaired path plain => exact path.trans hreads
  | entry node kind items exit last found paired shape reads shows =>
    rw [reads] at hreads
    cases hreads
  | exit node entry entryNode found plain done entryFound paired reads shows =>
    obtain ⟨first, hfirst, _, hpaired⟩ := spanned.found
    rw [hreads] at reads
    cases reads
    rw [hfirst] at entryFound
    cases entryFound
    rw [hpaired] at paired
    cases paired
    exact absurd rfl hexit

/-- What a link carries inside a zone starts at the entry or in the body. -/
theorem shows_inside (hdone : id ∈ draft.done)
    (h : id = span.entry ∨ id ≠ draft.source ∧ id ≠ span.exit ∧ (draft.info id).reads = [span.entry]) :
    (draft.info id).shows = [span.entry] := by
  rcases h with rfl | ⟨hsource, hexit, hreads⟩
  · exact (flat.entry_info spanned hdone).2
  · exact flat.shows_eq spanned hdone hsource hexit hreads

/-- The nodes of a body read inside the zone. -/
theorem reads_body (hid : id ∈ span.body) :
    id ≠ draft.source ∧ id ≠ span.exit ∧ (draft.info id).reads = [span.entry] := by
  have inside := flat.sound.inside_of_mem_body flat.coupled spanned hid
  obtain ⟨node, hnode⟩ := Option.isSome_iff_exists.mp inside.found
  refine ⟨inside.ne_source, inside.ne_exit, ?_⟩
  have hmem := inside.reads
  cases hreads : (draft.info id).reads with
  | nil =>
    rw [hreads] at hmem
    cases hmem
  | cons entry rest =>
    have inner := flat.sound.inner_of_reads hnode inside.ne_source hreads
    rw [hreads, flat.reads_eq hnode inner hreads] at hmem
    rw [flat.reads_eq hnode inner hreads, mem_singleton.mp hmem]

/-- An exit depends on its entry. -/
theorem entryOf?_exit :
    Span.entryOf? draft.graph.spans span.exit = some span.entry := by
  refine Graph.entryOf?_exit (fun hnode _ => flat.sound.keyed hnode) spanned fun entry spanned' => ?_
  have hreads := flat.reads_exit spanned'
  rw [show (draft.graph.span entry span.exit).exit = span.exit from rfl, flat.reads_exit spanned] at hreads
  exact (head_eq_of_cons_eq hreads).symm

omit spanned in
/-- What a node depends on is completed earlier. -/
theorem founded : draft.graph.Founded draft.graph.spans draft.done.idxOf
    fun id => id ∈ draft.done ∨ id = draft.sink := by
  have hdeps : ∀ {id other}, (id ∈ draft.done ∨ id = draft.sink) →
      other ∈ draft.graph.dependencies draft.graph.spans id →
      other ∈ draft.done ∧ draft.done.idxOf other < draft.done.idxOf id := by
    intro id other hid hother
    rcases mem_append.mp hother with hentry | hproducer
    · have spanned := flat.sound.spanned_of_entryOf? (Option.mem_toList.mp hentry)
      rcases hid with hid | rfl
      · exact (flat.partners spanned).first hid
      · have hreads := flat.reads_exit spanned
        rw [show (draft.graph.span other draft.sink).exit = draft.sink from rfl, flat.sound.sink.2.1] at hreads
        cases hreads
    · obtain ⟨link, hlink, rfl, rfl⟩ := flat.sound.exists_link_of_producer hproducer
      exact ⟨(flat.sound.linked link hlink).ready, flat.sound.ranked link hlink⟩
  refine ⟨fun hid => ?_, fun hid hother => .inl (hdeps hid hother).1, fun hid hother => (hdeps hid hother).2⟩
  rcases hid with hid | rfl
  · exact Option.isSome_iff_exists.mpr (flat.sound.present _ hid)
  · obtain ⟨_, _, sink, hsink, _⟩ := flat.sound.sink
    exact Option.isSome_iff_exists.mpr ⟨sink, hsink⟩

omit spanned in
theorem done_of_live (live : draft.Live id) : id ∈ draft.done ∨ id = draft.sink := by
  induction live with
  | refl => exact .inr rfl
  | tail _ step ih => exact flat.founded.closed ih step

/-- A node inside a zone that the sink depends on feeds the exit of the zone. -/
theorem supplier_of_live (live : draft.Live id)
    (hsource : id ≠ draft.source) (hexit : id ≠ span.exit) (hreads : (draft.info id).reads = [span.entry]) :
    id ∈ draft.graph.reachable draft.graph.producersOf span.exit span.entry := by
  induction live with
  | refl =>
    rw [flat.sound.sink.2.1] at hreads
    cases hreads
  | @tail before id path step ih =>
    have hdone := (flat.done_of_live (.tail path step)).resolve_right fun h => by
      rw [h, flat.sound.sink.2.1] at hreads
      cases hreads
    have hentry : id ≠ span.entry := by
      rintro rfl
      rw [(flat.entry_info spanned hdone).1] at hreads
      cases hreads
    rcases mem_append.mp step with hfirst | hproducer
    · have spanned' := flat.sound.spanned_of_entryOf? (Option.mem_toList.mp hfirst)
      have hinfo := (flat.entry_info spanned' hdone).1
      rw [show (draft.graph.span id before).entry = id from rfl, hreads] at hinfo
      cases hinfo
    · obtain ⟨link, hlink, rfl, rfl⟩ := flat.sound.exists_link_of_producer hproducer
      have hto := flat.reads_of_link hlink (flat.shows_eq spanned hdone hsource hexit hreads)
      refine Graph.mem_reachable (Graph.mem_linkEnds hlink).1 hexit hentry ?_
      by_cases hlast : link.toNode = span.exit
      · exact .inl (hlast ▸ hproducer)
      · exact .inr ⟨link.toNode, ih (flat.sound.to_ne_source hlink) hlast hto, hproducer⟩

/-- A body holds what is linked from inside the zone, if the sink depends on it. -/
theorem mem_body {link : Link}
    (hlink : link ∈ draft.graph.links.values) (live : draft.Live link.toNode) (hexit : link.toNode ≠ span.exit)
    (hfrom : link.fromNode = span.entry ∨ link.fromNode ∈ span.body) : link.toNode ∈ span.body := by
  have hready := (flat.sound.linked link hlink).ready
  have hinside := hfrom.imp_right (flat.reads_body spanned)
  have hreads := flat.reads_of_link hlink (flat.shows_inside spanned hready hinside)
  have hsource := flat.sound.to_ne_source hlink
  have hentry : link.toNode ≠ span.entry := by
    intro heq
    have hdone := (flat.done_of_live live).resolve_right fun h => by
      rw [h, flat.sound.sink.2.1] at hreads
      cases hreads
    rw [heq] at hdone hreads
    rw [(flat.entry_info spanned hdone).1] at hreads
    cases hreads
  rw [spanned.eq]
  refine mem_filter.mpr ⟨?_, contains_iff_mem.mpr (flat.supplier_of_live spanned live hsource hexit hreads)⟩
  refine Graph.mem_reachable (Graph.mem_linkEnds hlink).2 hentry hexit ?_
  rcases hfrom with hfrom | hfrom
  · exact .inl (hfrom ▸ flat.sound.mem_consumersOf hlink)
  · rw [spanned.eq] at hfrom
    exact .inr ⟨link.fromNode, (mem_filter.mp hfrom).1, flat.sound.mem_consumersOf hlink⟩

end Flat

end Draft

end NodeScript
