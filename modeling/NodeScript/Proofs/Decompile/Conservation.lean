import NodeScript.Proofs.Decompile.Dependence
import NodeScript.Proofs.Decompile.Legible

/-!
# No node is lost

A decompiled program has one statement for each node that the sink relies on, however deep its zones
are inside one another. Statements wait in the body of a zone until the exit of the zone is met, so
none of them may come after the exit, and no exit may be missing. Where the graph comes from a
program, a node in the body of a zone feeds its exit, and whatever relies on the node relies on the
exit or is inside the zone too.
-/

namespace NodeScript

open Script List Relation References

/-! ## Bodies are emptied -/

namespace Piece

variable {spans : List Span} {order before behind : List NodeId} {nest : Nest} {id : NodeId}

/-- Nodes that belong to a zone come before its exit, and no two zones share an exit. -/
structure Timely (spans : List Span) (order : List NodeId) : Prop where
  nodup : order.Nodup
  exits : (spans.map Span.exit).Nodup
  later : ∀ before id behind, order = before ++ id :: behind → ∀ position span, owner? spans id = some position →
    spans[position]? = some span → span.exit ∈ behind

/-- A body is empty if its zone has ended, or if no node of it has been met. -/
structure Cleared (spans : List Span) (before : List NodeId) (nest : Nest) : Prop where
  length : nest.bodies.length = spans.length
  bodies : ∀ position span, spans[position]? = some span →
    (span.exit ∈ before ∨ ∀ id ∈ before, owner? spans id ≠ some position) → nest.bodies[position]? = some []

/-- Only the zone that ends in a node is emptied for it. -/
theorem bodies_take (hexits : (spans.map Span.exit).Nodup)
    (hlength : nest.bodies.length = spans.length) {position : Nat}
    {span : Span} (hspan : spans[position]? = some span) :
    (take spans nest id).2.bodies[position]? = if span.exit = id then some [] else nest.bodies[position]? := by
  obtain ⟨hlt, hget⟩ := List.getElem?_eq_some_iff.mp hspan
  unfold take
  cases hfind : spans.findIdx? fun span => span.exit = id with
  | none =>
    have hnone := List.findIdx?_eq_none_iff.mp hfind span (List.mem_of_getElem? hspan)
    rw [if_neg (of_decide_eq_false hnone)]
  | some found =>
    obtain ⟨hlt', hexit, _⟩ := findIdx?_eq_some_iff_getElem.mp hfind
    dsimp only
    rw [getElem?_eq_getElem hlt']
    dsimp only
    rw [getElem?_set, hlength]
    by_cases hsame : found = position
    · subst hsame
      rw [hget, decide_eq_true_eq] at hexit
      rw [if_pos rfl, if_pos hlt, if_pos hexit]
    · rw [if_neg hsame, if_neg]
      intro hexit'
      refine hsame ((getElem?_inj (by rwa [length_map]) hexits).mp ?_)
      rw [getElem?_map, getElem?_map, hspan, getElem?_eq_getElem hlt', Option.map_some, Option.map_some,
        hexit', of_decide_eq_true hexit]

theorem Cleared.place (timely : Timely spans order) (hsplit : order = before ++ id :: behind)
    (cleared : Cleared spans before nest) : Cleared spans (before ++ [id]) (place spans nest id) where
  length := (length_place spans nest id).trans cleared.length
  bodies := by
    intro position span hspan hcleared
    have hnodup := timely.nodup
    rw [hsplit, nodup_append] at hnodup
    have howner : owner? spans id ≠ some position := by
      intro howner
      have hlater := timely.later before id behind hsplit position span howner hspan
      rcases hcleared with hexit | hnone
      · rcases mem_append.mp hexit with hexit | hexit
        · exact hnodup.2.2 _ hexit _ (.tail _ hlater) rfl
        · rw [mem_singleton.mp hexit] at hlater
          exact (nodup_cons.mp hnodup.2.1).1 hlater
      · exact hnone id (mem_append_right _ (mem_singleton_self id)) howner
    have htaken : (take spans nest id).2.bodies[position]? = some [] := by
      rw [bodies_take timely.exits cleared.length hspan]
      split
      · rfl
      · next hexit =>
          refine cleared.bodies position span hspan (hcleared.imp (fun h => ?_) fun h other hother => ?_)
          · exact (mem_append.mp h).resolve_right fun h => hexit (mem_singleton.mp h)
          · exact h other (mem_append_left _ hother)
    unfold Piece.place
    dsimp only
    split
    · next position' howner' =>
        have hne : position' ≠ position := fun heq => howner (heq ▸ howner')
        rw [getElem?_modify, htaken]
        exact congrArg some (if_neg hne)
    · exact htaken

theorem Cleared.foldl_place (timely : Timely spans order)
    (behind : List NodeId) (cleared : Cleared spans before nest)
    (hsplit : order = before ++ behind) : Cleared spans order (behind.foldl (Piece.place spans) nest) := by
  induction behind generalizing before nest with
  | nil =>
    rw [append_nil] at hsplit
    exact hsplit ▸ cleared
  | cons id rest ih => exact ih (cleared.place timely hsplit) (by rw [append_assoc]; exact hsplit)

theorem Cleared.blank (spans : List Span) : Cleared spans [] ⟨spans.map fun _ => [], []⟩ where
  length := length_map _
  bodies := fun position span hspan _ => by
    rw [getElem?_map, hspan]
    rfl

/-- All nodes of the order get into the program. -/
theorem perm_nodes_nest (timely : Timely spans order) : (nodesAll (Piece.nest spans order)).Perm order := by
  have cleared := (Cleared.blank spans).foldl_place timely order rfl
  have hall := @nodes_foldl_place spans order ⟨spans.map fun _ => [], []⟩ (length_map _)
  have hempty : ∀ body ∈ (order.foldl (place spans) ⟨spans.map fun _ => [], []⟩).bodies, body = [] := by
    intro body hbody
    obtain ⟨position, hposition⟩ := List.mem_iff_getElem?.mp hbody
    have hlt := (List.getElem?_eq_some_iff.mp hposition).1
    rw [cleared.length] at hlt
    have hspan := List.getElem?_eq_getElem hlt
    have hnone := cleared.bodies position _ hspan ?_
    · exact Option.some.inj (hposition.symm.trans hnone)
    · by_cases hexit : spans[position].exit ∈ order
      · exact .inl hexit
      · refine .inr fun id hid howner => hexit ?_
        obtain ⟨before, behind, hsplit⟩ := append_of_mem hid
        have hlater := timely.later before id behind hsplit position _ howner hspan
        exact hsplit ▸ mem_append_right _ (.tail _ hlater)
  have hbodies : bodyNodes (order.foldl (place spans) ⟨spans.map fun _ => [], []⟩).bodies = [] := by
    refine flatMap_eq_nil_iff.mpr fun body hbody => ?_
    rw [hempty body hbody, nodesAll]
  rw [Nest.nodes, Nest.nodes, bodyNodes_blank, hbodies, nodesAll, append_nil, append_nil, append_nil] at hall
  exact hall

end Piece

/-! ## Statements of nodes -/

/-- A node that has a statement: it is no boundary of the graph and no entry of a zone, and a sink
relies on it. -/
def Graph.Needed (graph : Graph) (id : NodeId) : Prop :=
  (∃ node, graph.node? id = some node ∧ node.role.isBoundary = false ∧ node.role.isZoneEntry = false) ∧
    ∃ sink node, graph.node? sink = some node ∧ node.role = .groupOutput ∧ TransGen graph.Relies sink id

/-- The statement of a node: a zone for the exit of one, with the items of the entry, and a call for
any other node. -/
inductive Graph.States (graph : Graph) (names : NodeId → String) (id : NodeId) : Statement → Prop
  | call {node : Node} {args : List (String × Value)} (found : graph.node? id = some node)
      (plain : ∀ entry, ¬ graph.Opens entry id) :
      States graph names id (.call (names id) (functionOf node) args)
  | zone {entry : NodeId} {node : Node} {args : List (String × Value)} {body : List Statement} {next : List Value}
      (opens : graph.Opens entry id) (found : graph.node? entry = some node) :
      States graph names id (.zone (names id) (References.zoneKind node)
        ((References.items node.inputs).map itemParameter) args body next)

theorem References.forall₂_statements {refs : References} {R : NodeId → Statement → Prop} {pieces : List Piece}
    (h : ∀ piece ∈ pieces, Forall₂ R piece.nodes (Statement.partsIn (refs.statement? piece).toList)) :
    Forall₂ R (Piece.nodesAll pieces) (Statement.partsIn (refs.statements pieces)) := by
  induction pieces with
  | nil => exact .nil
  | cons piece rest ih =>
    rw [Piece.nodesAll, statements, Statement.partsIn_append]
    exact rel_append (h piece mem_cons_self) (ih fun other hother => h other (.tail _ hother))

/-! ## Zones of built graphs -/

namespace Draft

variable {rules : Rules} {draft : Draft}

namespace Sound

variable {span : Span} {id : NodeId}

theorem identified (sound : draft.Sound rules) : draft.graph.Identified where
  entries := fun hnode _ => sound.keyed hnode
  inputs := fun link hlink id node hnode hto => by
    obtain ⟨port, hport, hid⟩ := mem_map.mp hto
    exact sound.link_to hlink hnode hport hid.symm

variable (sound : draft.Sound rules) (coupled : draft.Coupled)
include sound coupled

/-- What a node relies on comes before it in the order of completion. An exit may be as incomplete
as its entry. -/
theorem orderly : draft.graph.Orderly where
  starts := fun link hlink => by
    obtain ⟨node, port, hnode, hid, hreferable⟩ := (sound.linked link hlink).start
    exact ⟨node, hnode, hid ▸ mem_map_of_mem hreferable.mem⟩
  ends := fun link hlink => by
    obtain ⟨node, port, hnode, hport, hid, _⟩ := (sound.linked link hlink).finish
    exact ⟨node, hnode, hid ▸ mem_map_of_mem hport⟩
  single := fun opens opens' => by
    obtain ⟨node, hnode, _, hpaired⟩ := opens.found
    obtain ⟨node', hnode', _, hpaired'⟩ := opens'.found
    have hreads := (coupled _ node _ hnode hpaired).reads
    rw [(coupled _ node' _ hnode' hpaired').reads] at hreads
    exact (head_eq_of_cons_eq hreads).symm
  acyclic := by
    refine Graph.acyclic_of_ranked (fun id => 2 * draft.done.idxOf id +
      if (draft.graph.node? id).any (fun node => node.role.isZoneExit) then 1 else 0) (fun link hlink => ?_) ?_
    · have hlt := sound.ranked link hlink
      dsimp only at hlt ⊢
      split <;> split <;> omega
    · rintro ⟨entry, exit⟩ hzone
      obtain ⟨⟨node, hnode, hrole, hpaired⟩, last, hlast, hexit⟩ := Graph.mem_zones.mp hzone
      have partners := coupled entry node exit hnode hpaired
      have hplain : node.role.isZoneExit = false := by
        revert hrole
        cases node.role <;> decide
      dsimp only
      rw [hnode, hlast, Option.any_some, Option.any_some, hplain, hexit]
      have hle : draft.done.idxOf entry ≤ draft.done.idxOf exit := by
        by_cases hdone : exit ∈ draft.done
        · exact Nat.le_of_lt (partners.first hdone).2
        · rw [idxOf_of_notMem hdone]
          exact idxOf_le_length
      simp only [Bool.false_eq_true, if_false, if_true]
      omega

/-- Both ends of a zone have its items, under titles of script names, and the exit shows where the
entry reads. -/
theorem exists_items {entry exit : NodeId} {node : Node}
    (hdone : entry ∈ draft.done) (hnode : draft.graph.node? entry = some node)
    (hpaired : node.pairedOutput = some exit) :
    ∃ (kind : ZoneKind) (items : List (String × SocketType)),
      (draft.info entry).shape = kind.entrySpec.withItems items ∧
      (draft.info exit).shape = kind.exitSpec.withItems items ∧
      (∀ item ∈ items, ∃ name, rules.item name ∧ item.1 = titleCase name ∧ item.2 ∈ SocketType.standard) ∧
      (draft.info exit).shows = (draft.info entry).reads := by
  have partners := coupled entry node exit hnode hpaired
  cases sound.completed hdone partners.outer hnode with
  | plain _ _ _ _ unpaired =>
    rw [unpaired] at hpaired
    cases hpaired
  | group _ _ _ _ _ _ _ unpaired =>
    rw [unpaired] at hpaired
    cases hpaired
  | exit _ _ _ _ _ _ _ unpaired =>
    rw [unpaired] at hpaired
    cases hpaired
  | entry kind items other paired shape exitShape _ _ shows named _ =>
    rw [paired, Option.some.injEq] at hpaired
    subst hpaired
    exact ⟨kind, items, shape, exitShape, named, shows⟩

/-- If the sink relies on a node inside a zone, it relies on the exit of the zone. -/
theorem live_exit (spanned : draft.graph.Spanned span)
    (live : draft.Live id) (inside : draft.Inside span id) : draft.Live span.exit := by
  induction live with
  | refl =>
    have hreads := inside.reads
    rw [sound.sink.2.1] at hreads
    cases hreads
  | @tail reader id path step ih =>
    -- The reader reads inside the zone too, so it ends the zone or is inside of it.
    have hreader : ∀ {node}, draft.graph.node? reader = some node → reader ≠ draft.source →
        span.entry ∈ (draft.info reader).reads → draft.Live span.exit := by
      intro node hnode hsource hreads
      by_cases hexit : reader = span.exit
      · exact hexit ▸ path
      · exact ih ⟨by rw [hnode]; rfl, hsource, hexit, hreads⟩
    rcases (Graph.mem_dependencies (sound.orderly coupled) sound.identified).mp step with
      ⟨link, hlink, rfl, rfl⟩ | opens
    · have linked := sound.linked link hlink
      obtain ⟨node, _, hnode, _⟩ := linked.finish
      exact hreader hnode (sound.to_ne_source hlink)
        (linked.scope.subset (sound.mem_shows coupled spanned linked.ready (.inr inside)))
    · obtain ⟨node, hnode, _, hpaired⟩ := opens.found
      obtain ⟨last, hlast, _⟩ := opens.exit
      have partners := coupled id node reader hnode hpaired
      have hsink : id ≠ draft.sink := by
        rintro rfl
        have hreads := inside.reads
        rw [sound.sink.2.1] at hreads
        cases hreads
      have hdone := ((sound.shown_of_live coupled (path.tail step)).resolve_left hsink).1
      refine hreader hlast partners.ne ?_
      obtain ⟨_, _, _, _, _, hshows⟩ := sound.exists_items coupled hdone hnode hpaired
      rw [partners.reads, hshows]
      exact mem_cons_of_mem _ inside.reads

/-- The exit of a zone relies on the nodes of the body. -/
theorem relies_of_mem_body (spanned : draft.graph.Spanned span)
    (hid : id ∈ span.body) : TransGen draft.graph.Relies span.exit id := by
  rw [spanned.eq] at hid
  have hproducer : ∀ {id other}, other ∈ draft.graph.producersOf id → draft.graph.Relies id other := fun h =>
    (Graph.mem_dependencies (sound.orderly coupled) sound.identified).mp (mem_append_right _ h)
  exact (Graph.reachable_induction (P := TransGen draft.graph.Relies span.exit)
    (fun _ h => .single (hproducer h))
    (fun _ _ _ path _ h => path.tail (hproducer h)) (contains_iff_mem.mp (mem_filter.mp hid).2)).2.2

theorem mem_order :
    id ∈ draft.order ↔ draft.graph.Speaks id ∧ id ≠ draft.source ∧ id ≠ draft.sink ∧
      TransGen draft.graph.Relies draft.sink id :=
  Graph.mem_statementOrder (sound.orderly coupled) sound.identified

/-- The exit of the zone that a node belongs to has its statement behind that of the node. -/
theorem exit_mem_behind (spanned : draft.graph.Spanned span)
    {before behind : List NodeId} (hsplit : draft.order = before ++ id :: behind) (hid : id ∈ span.body) :
    span.exit ∈ behind := by
  have hmem : id ∈ draft.order := hsplit ▸ mem_append_right _ mem_cons_self
  have inside := sound.inside_of_mem_body coupled spanned hid
  obtain ⟨node, hnode, hentry, hpaired⟩ := spanned.found
  obtain ⟨last, hlast, hrole⟩ := spanned.exit
  have partners := coupled _ node _ hnode hpaired
  have hsink : span.exit ≠ draft.sink := by
    intro heq
    have hreads := partners.reads
    rw [heq, sound.sink.2.1] at hreads
    cases hreads
  have hspeaks : last.role.isZoneEntry = false := by
    revert hrole
    cases last.role <;> decide
  have live := sound.live_exit coupled spanned (live_of_mem_order hmem) inside
  unfold Live at live
  rw [Graph.dependencies_eq_relies (sound.orderly coupled) sound.identified] at live
  have hexit : span.exit ∈ draft.order := (sound.mem_order coupled).mpr
    ⟨⟨last, hlast, hspeaks⟩, partners.ne, hsink,
      (reflTransGen_iff_eq_or_transGen.mp live).resolve_left hsink⟩
  have hlt := (Graph.sorts_statementOrder (sound.orderly coupled) sound.identified draft.source draft.sink).idxOf_lt
    (order_nodup draft) hexit ⟨sound.relies_of_mem_body coupled spanned hid, hmem⟩
  change draft.order.idxOf id < draft.order.idxOf span.exit at hlt
  have hnodup := order_nodup draft
  rw [hsplit] at hexit hlt hnodup
  have hfresh : id ∉ before := fun h => (nodup_append.mp hnodup).2.2 _ h _ mem_cons_self rfl
  rw [idxOf_append_of_notMem hfresh, idxOf_cons_self] at hlt
  rcases mem_append.mp hexit with hbefore | hbehind
  · rw [idxOf_append_of_mem hbefore] at hlt
    exact absurd (idxOf_lt_length_iff.mpr hbefore) (by omega)
  · exact (mem_cons.mp hbehind).resolve_left fun h => inside.ne_exit h.symm

theorem timely : Piece.Timely draft.graph.spans draft.order where
  nodup := order_nodup draft
  exits := by
    have hentries := Graph.spans_nodup sound.keyed
    refine Nodup.map_on (fun span hspan other hother heq => ?_) (Nodup.of_map Span.entry hentries)
    have spanned := sound.mem_spans.mp hspan
    have spanned' := sound.mem_spans.mp hother
    have hentry : span.entry = other.entry :=
      (sound.orderly coupled).single ⟨spanned.found, spanned.exit⟩ (heq ▸ ⟨spanned'.found, spanned'.exit⟩)
    rw [spanned.eq, spanned'.eq, hentry, heq]
  later := fun before id behind hsplit position span howner hspan => by
    obtain ⟨span', hspan', hbody⟩ := Piece.owner?_eq_some howner
    cases hspan.symm.trans hspan'
    exact sound.exit_mem_behind coupled (sound.mem_spans.mp (mem_of_getElem? hspan)) hsplit hbody

theorem mem_order_iff_needed :
    id ∈ draft.order ↔ draft.graph.Needed id := by
  obtain ⟨_, _, source, hsource, hinput, _⟩ := sound.source
  obtain ⟨_, _, sink, hsink, houtput, _⟩ := sound.sink
  rw [sound.mem_order coupled]
  constructor
  · rintro ⟨⟨node, hnode, hentry⟩, hneSource, hneSink, path⟩
    exact ⟨⟨node, hnode, sound.inner hnode hneSource hneSink, hentry⟩, draft.sink, sink, hsink, houtput, path⟩
  · rintro ⟨⟨node, hnode, hinner, hentry⟩, last, lastNode, hlast, hrole, path⟩
    have hne : ∀ {other found}, draft.graph.node? other = some found →
        found.role.isBoundary = true → id ≠ other := by
      rintro other found hfound hboundary rfl
      cases hnode.symm.trans hfound
      rw [hinner] at hboundary
      cases hboundary
    have heq : last = draft.sink := by
      refine (sound.boundary hlast (by rw [hrole]; rfl)).resolve_left ?_
      rintro rfl
      cases hsource.symm.trans hlast
      rw [hinput] at hrole
      cases hrole
    exact ⟨⟨node, hnode, hentry⟩, hne hsource (by rw [hinput]; rfl), hne hsink (by rw [houtput]; rfl), heq ▸ path⟩

/-- Every statement is that of its node. -/
theorem forall₂_states (catalog : Catalog) :
    Forall₂ (draft.graph.States (draft.refs catalog).target)
      (Piece.nodesAll (Piece.nest draft.graph.spans draft.order))
      (Statement.partsIn ((draft.refs catalog).statements (Piece.nest draft.graph.spans draft.order))) := by
  refine References.forall₂_statements (Piece.nest_induction ?_ ?_)
  · intro id hid hends
    obtain ⟨⟨node, hnode, _⟩, _⟩ := (sound.mem_order coupled).mp hid
    have hplain : ∀ entry, ¬ draft.graph.Opens entry id := fun entry opens =>
      hends _ (sound.mem_spans.mpr (Graph.spanned_span.mpr opens)) rfl
    rw [statement?, callStatement?,
      show (draft.refs catalog).graph.node? id = some node from hnode]
    exact .cons (.call hnode hplain) .nil
  · intro span hspan _ body hbody
    have spanned := sound.mem_spans.mp hspan
    obtain ⟨entry, hentry, _⟩ := spanned.found
    obtain ⟨exit, hexit, _⟩ := spanned.exit
    rw [statement?, zoneStatement?,
      show (draft.refs catalog).graph.node? span.entry = some entry from hentry,
      show (draft.refs catalog).graph.node? span.exit = some exit from hexit]
    refine .cons (.zone ⟨spanned.found, spanned.exit⟩ hentry) ?_
    change Forall₂ _ _ (Statement.partsIn ((draft.refs catalog).statements body) ++ [])
    rw [append_nil]
    exact References.forall₂_statements hbody

/-- The graph of a draft decompiles to one statement for each node that is needed. -/
theorem exists_stated (catalog : Catalog) :
    ∃ program ids names, draft.graph.decompile catalog = .ok program ∧ ids.Nodup ∧
      (∀ id, id ∈ ids ↔ draft.graph.Needed id) ∧ (ids.map names).Nodup ∧
        Forall₂ (draft.graph.States names) ids program.parts := by
  obtain ⟨sink, hsink, hgraph⟩ := sound.ofGraph_eq catalog
  have hperm := Piece.perm_nodes_nest (sound.timely coupled)
  have hnodup := hperm.nodup_iff.mpr (order_nodup draft)
  have hnames : (draft.refs catalog).names = statementNames draft.graph catalog draft.order [] := rfl
  have hpresent : ∀ id ∈ Piece.nodesAll (Piece.nest draft.graph.spans draft.order),
      id ∈ (draft.refs catalog).present draft.order := by
    intro id hid
    have hmem := hperm.subset hid
    obtain ⟨⟨node, hnode, _⟩, _⟩ := (sound.mem_order coupled).mp hmem
    exact mem_filter.mpr ⟨hmem, Option.isSome_iff_exists.mpr ⟨node, hnode⟩⟩
  unfold Graph.decompile
  rw [hgraph]
  refine ⟨_, _, (draft.refs catalog).target, rfl, hnodup, fun id => ?_, ?_, sound.forall₂_states coupled catalog⟩
  · rw [hperm.mem_iff, sound.mem_order_iff_needed coupled]
  · exact hnodup.map_on fun id hid other hother heq =>
      target_injOn hnames (hpresent id hid) (hpresent other hother) heq

end Sound

end Draft

namespace Script.Program

open Build

/-- A program with a faulty signature changes nothing. Otherwise the graph it leaves behind, whether
the build succeeds or not, decompiles to a program that has, at all depths taken together, exactly
one statement for each node that is needed, under a name of its own. -/
theorem decompile_conserves_nodes (s : Supply) (program : Program) (b : Build) :
    (∃ e, program.inputs (Session.standard s) = .error e ∧
      exec (program.build (Session.standard s)) b = (.error e, b)) ∨
      ∃ graph decompiled ids names,
        (exec (program.build (Session.standard s)) b).2.store.get? program.name = some graph ∧
        graph.decompile (Session.standard s).catalog = .ok decompiled ∧ ids.Nodup ∧
        (∀ id, id ∈ ids ↔ graph.Needed id) ∧ (ids.map names).Nodup ∧
          Forall₂ (graph.States names) ids decompiled.parts := by
  cases hinputs : program.inputs (Session.standard s) with
  | error e => exact .inl ⟨e, rfl, exec_build_error hinputs b⟩
  | ok params =>
    obtain ⟨graph, store, inputs, hget, built, _⟩ := built_build s hinputs b
    obtain ⟨draft, rfl, sound, _, coupled⟩ := built.drafted
    obtain ⟨decompiled, ids, names, hdecompiled, stated⟩ := sound.exists_stated coupled (Session.standard s).catalog
    exact .inr ⟨draft.graph, decompiled, ids, names, hget, hdecompiled, stated⟩

end Script.Program

end NodeScript
