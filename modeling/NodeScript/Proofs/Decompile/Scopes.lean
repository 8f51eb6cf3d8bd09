import Mathlib
import NodeScript.Proofs.Decompile.Hygiene
import NodeScript.Proofs.Decompile.Spans
import NodeScript.Proofs.Script.Scoping

/-!
# Scopes of decompiled programs

Where no zone is inside another one, a decompiled program is well scoped: the statement of a node
stands behind those of the nodes it reads, in the same body or outside of all zones, and what it
reads from an entry is an item of the zone around it.
-/

namespace NodeScript

open Script List References Piece Relation

variable {port : Port}

/-! ## Values and arguments -/

namespace References

variable {refs : References} {known : List String} {ports : List Port} {value : Value}

/-- The values at the starts of all links into some ports are known. -/
def Knows (refs : References) (ports : List Port) (known : List String) : Prop :=
  ∀ port ∈ ports, ∀ link ∈ refs.graph.linksTo port.id, ∀ value, refs.linkValue? link = some value →
    value.names ⊆ known

theorem Knows.names_portValue? (knows : refs.Knows ports known) (hport : port ∈ ports) {hidden : Bool}
    (h : refs.portValue? port hidden = some value) : value.names ⊆ known := by
  have hlinks : ∀ value ∈ (refs.graph.linksTo port.id).filterMap refs.linkValue?, value.names ⊆ known := by
    intro value hvalue
    obtain ⟨link, hlink, hsome⟩ := mem_filterMap.mp hvalue
    exact knows port hport link hlink value hsome
  unfold portValue? at h
  split at h
  · split at h
    · obtain ⟨default, _, rfl⟩ := Option.map_eq_some_iff.mp h
      rw [Value.names]
      exact nil_subset _
    · cases h
  · next heq =>
      cases h
      exact hlinks value (heq ▸ mem_cons_self)
  · cases h
    rw [Value.names]
    exact Value.namesIn_subset hlinks

theorem mem_leading {α β : Type} {f : α → Option β} {as : List α} {b : β} (h : b ∈ leading f as) :
    ∃ a ∈ as, f a = some b := by
  induction as with
  | nil => cases h
  | cons a rest ih =>
    rw [leading] at h
    cases hf : f a with
    | none =>
      rw [hf] at h
      cases h
    | some first =>
      rw [hf] at h
      rcases mem_cons.mp h with rfl | h
      · exact ⟨a, mem_cons_self, hf⟩
      · obtain ⟨other, hother, hsome⟩ := ih h
        exact ⟨other, mem_cons_of_mem _ hother, hsome⟩

/-- Ports that are put together are among the ports, and their name is that of a port. -/
theorem of_mem_byName {name : String} {group : List Port} (h : (name, group) ∈ byName ports) :
    group ⊆ ports ∧ ∃ port ∈ ports, snakeCase port.name = name := by
  have hfold : ∀ (rest : List Port) (groups : OrderedMap String (List Port)), rest ⊆ ports →
      (∀ name group, groups.get? name = some group → group ⊆ ports ∧ ∃ port ∈ ports, snakeCase port.name = name) →
      ∀ name group, (rest.foldl (fun groups port => groups.insert (snakeCase port.name)
        ((groups.get? (snakeCase port.name)).getD [] ++ [port])) groups).get? name = some group →
        group ⊆ ports ∧ ∃ port ∈ ports, snakeCase port.name = name := by
    intro rest
    induction rest with
    | nil => exact fun groups _ hgroups => hgroups
    | cons port rest ih =>
      intro groups hrest hgroups
      refine ih _ (fun other hother => hrest (mem_cons_of_mem _ hother)) ?_
      intro name group hgroup
      rw [OrderedMap.get?_insert] at hgroup
      split at hgroup
      · next heq =>
          cases hgroup
          have hport : port ∈ ports := hrest mem_cons_self
          refine ⟨append_subset.mpr ⟨?_, fun other hother => mem_singleton.mp hother ▸ hport⟩,
            port, hport, heq.symm⟩
          cases hold : groups.get? (snakeCase port.name) with
          | none => exact nil_subset _
          | some old => exact (hgroups _ old hold).1
      · exact hgroups name group hgroup
  exact hfold ports ∅ (Subset.refl _) (fun _ _ h => by cases h) name group (OrderedMap.get?_eq_some_iff.mpr h)

theorem names_propertyValue? {property : PropertyValue} (h : propertyValue? property = some value) :
    value.names = [] := by
  cases property <;> cases h <;> rw [Value.names]

/-- The arguments of a call mention what its inputs are linked to. -/
theorem Knows.names_arguments {node : Node} (knows : refs.Knows node.inputs known) :
    ∀ arg ∈ refs.arguments node, arg.2.names ⊆ known := by
  intro arg harg
  unfold arguments at harg
  rcases mem_append.mp harg with harg | harg
  · rcases mem_append.mp harg with harg | harg
    · obtain ⟨property, _, hsome⟩ := mem_filterMap.mp harg
      obtain ⟨value, hvalue, rfl⟩ := Option.map_eq_some_iff.mp hsome
      rw [names_propertyValue? hvalue]
      exact nil_subset _
    · obtain ⟨port, _, hsome⟩ := mem_filterMap.mp harg
      obtain ⟨value, _, rfl⟩ := Option.map_eq_some_iff.mp hsome
      rw [Value.names]
      exact nil_subset _
  · obtain ⟨⟨name, group⟩, hgroup, hsome⟩ := mem_filterMap.mp harg
    have hsub : ∀ port ∈ group, port ∈ node.inputs := fun port hport =>
      mem_of_mem_filter ((of_mem_byName hgroup).1 hport)
    dsimp only at hsome
    unfold inputArgument? at hsome
    split at hsome
    · obtain ⟨value, hvalue, rfl⟩ := Option.map_eq_some_iff.mp hsome
      exact knows.names_portValue? (hsub _ mem_cons_self) hvalue
    · split at hsome
      · cases hsome
      · cases hsome
        rw [Value.names]
        refine Value.namesIn_subset fun value hvalue => ?_
        obtain ⟨port, hport, hsome⟩ := mem_leading hvalue
        exact knows.names_portValue? (hsub port hport) hsome

theorem statements_append (refs : References) (pieces others : List Piece) :
    refs.statements (pieces ++ others) = refs.statements pieces ++ refs.statements others := by
  induction pieces with
  | nil =>
    rw [statements]
    rfl
  | cons piece rest ih => rw [cons_append, statements, statements, ih, append_assoc]

theorem statements_concat (refs : References) (pieces : List Piece) {piece : Piece} {statement : Statement}
    (h : refs.statement? piece = some statement) :
    refs.statements (pieces ++ [piece]) = refs.statements pieces ++ [statement] := by
  rw [statements_append, statements, statements, h]
  rfl

end References

/-- Names that the zone of an entry gives to its body. -/
def Node.zoneScope (entry : Node) : List String :=
  zoneNames (References.zoneKind entry) ((References.items entry.inputs).map itemParameter)

/-- All outputs of an entry are named in its zone. -/
theorem Node.Instantiates.mem_zoneScope {node : Node} {kind : ZoneKind} {items : List (String × SocketType)}
    (shape : node.Instantiates (kind.entrySpec.withItems items)) (hport : port ∈ node.outputs) :
    snakeCase port.name ∈ node.zoneScope := by
  have hitem : ∀ item ∈ items, snakeCase item.1 ∈
      ((References.items node.inputs).map itemParameter).map Parameter.name := by
    intro item hitem
    have hsocket : itemInput item ∈ (kind.entrySpec.withItems items).inputs :=
      mem_append_right _ (mem_map_of_mem hitem)
    obtain ⟨input, hinput, fits⟩ := forall₂_exists_right shape.inputs hsocket
    refine mem_map.mpr ⟨itemParameter input, mem_map_of_mem (mem_filter.mpr ⟨hinput, ?_⟩), ?_⟩
    · exact fits.zoneItem
    · change snakeCase input.name = snakeCase item.1
      rw [fits.name]
      rfl
  have hrole := shape.role
  obtain ⟨socket, hsocket, fits⟩ := forall₂_exists_left shape.outputs hport
  rw [fits.name]
  unfold zoneScope References.zoneKind
  rcases mem_append.mp hsocket with hsocket | hsocket
  · cases kind with
    | repetition => cases hsocket
    | simulation =>
      rw [hrole, mem_singleton.mp hsocket]
      have hname : snakeCase "Delta Time" = deltaTime := by decide +kernel
      exact mem_cons.mpr (.inl hname)
  · obtain ⟨item, hmem, rfl⟩ := mem_map.mp hsocket
    have hname := hitem item hmem
    cases kind with
    | repetition =>
      rw [hrole]
      exact hname
    | simulation =>
      rw [hrole]
      exact mem_cons_of_mem _ hname

/-! ## Orders and references of drafts -/

namespace Draft

variable {rules : Rules} {draft : Draft} {catalog : Catalog} {id : NodeId} {known : List String}

/-- The order of the statements. -/
def order (draft : Draft) : List NodeId := draft.graph.statementOrder draft.graph.spans draft.source draft.sink

/-- What references to the nodes of a draft are made with. -/
def refs (draft : Draft) (catalog : Catalog) : References :=
  ⟨draft.graph, draft.source, statementNames draft.graph catalog draft.order []⟩

/-- Names of parameters. -/
def params (draft : Draft) : List String := draft.graph.interface.inputs.map fun entry => snakeCase entry.name

theorem order_nodup (draft : Draft) : draft.order.Nodup := Graph.statementOrder_nodup _ _ _ _

theorem live_of_mem_order (hid : id ∈ draft.order) : draft.Live id := by
  obtain ⟨hmem, _⟩ := mem_filter.mp hid
  have tidy := (draft.graph.grows_visit draft.graph.spans (draft.graph.nodes.size + 2) {} draft.sink).tidy
    ⟨nodup_nil, fun _ h => h⟩
  exact (Graph.depends_of_visited _ (tidy.visited id hmem)).resolve_left not_mem_nil

namespace Flat

variable {link : Link} {span : Span}

section

variable (flat : draft.Flat rules)
include flat

/-- The walk from the sink visits all it has to. -/
theorem settled :
    (draft.graph.visit draft.graph.spans (draft.graph.nodes.size + 2) {} draft.sink).Settled draft.graph
      draft.graph.spans (fun _ => False) ∧
    draft.sink ∈ (draft.graph.visit draft.graph.spans (draft.graph.nodes.size + 2) {} draft.sink).visited := by
  have hlength : draft.done.length ≤ draft.graph.nodes.size := by
    have hsub : draft.done ⊆ draft.graph.nodes.keys := fun id hid =>
      OrderedMap.mem_keys_iff.mpr (flat.sound.present id hid)
    have hle := (subperm_of_subset flat.sound.nodup hsub).length_le
    rw [OrderedMap.keys, length_map] at hle
    exact hle
  refine Graph.settled_visit flat.founded _ (.inr rfl) ?_ (fun _ h => h.elim) ⟨?_, ?_, ?_⟩
  · rw [idxOf_of_notMem flat.sound.sink.1]
    omega
  · exact fun _ h => absurd h not_mem_nil
  · exact fun _ h => absurd h not_mem_nil
  · exact .nil _

/-- What the statement of a node needs stands before it. -/
theorem mem_before {before behind : List NodeId} (hsplit : draft.order = before ++ id :: behind)
    {other : NodeId}
    (depends : TransGen (fun id other => other ∈ draft.graph.dependencies draft.graph.spans id)
      id other) (speaks : draft.graph.Speaks other) (hdone : other ∈ draft.done) (hsource : other ≠ draft.source) :
    other ∈ before := by
  have hsink : other ≠ draft.sink := fun h => flat.sound.sink.1 (h ▸ hdone)
  exact flat.settled.1.sorted.filter _ before id behind hsplit other ⟨⟨depends, speaks⟩, by simp [hsource, hsink]⟩

/-- What the sink reads has a statement. -/
theorem mem_order_of_producer (hlink : link ∈ draft.graph.links.values)
    (hto : link.toNode = draft.sink) (speaks : draft.graph.Speaks link.fromNode)
    (hsource : link.fromNode ≠ draft.source) : link.fromNode ∈ draft.order := by
  obtain ⟨settled, hvisited⟩ := flat.settled
  have hdone := (flat.sound.linked link hlink).ready
  have hsink : link.fromNode ≠ draft.sink := fun h => flat.sound.sink.1 (h ▸ hdone)
  have hdeps := settled.deps _ hvisited (fun h => h) link.fromNode
    (mem_append_right _ (hto ▸ flat.sound.mem_producersOf hlink))
  exact mem_filter.mpr ⟨settled.order _ hdeps (fun h => h) speaks, by simp [hsource, hsink]⟩

/-- What a link carries: a parameter, an item of the zone whose entry it comes from, or the result
of a statement. -/
theorem names_linkValue? (hlink : link ∈ draft.graph.links.values) {value : Value}
    (h : (draft.refs catalog).linkValue? link = some value) (hparams : draft.params ⊆ known)
    (hentry : ∀ span node, draft.graph.Spanned span → link.fromNode = span.entry →
      draft.graph.node? span.entry = some node → node.zoneScope ⊆ known)
    (hother : link.fromNode ≠ draft.source → draft.graph.Speaks link.fromNode →
      (draft.refs catalog).target link.fromNode ∈ known) : value.names ⊆ known := by
  have linked := flat.sound.linked link hlink
  obtain ⟨node, port, hnode, hid, hreferable⟩ := linked.start
  have hport : node.port? link.fromPort = some port :=
    hid ▸ Node.port?_of_mem (flat.sound.distinct hnode) (mem_append_right _ hreferable.mem)
  unfold linkValue? at h
  rw [show (draft.refs catalog).graph.node? link.fromNode = some node from hnode] at h
  simp only [hport, Option.bind_eq_bind, Option.bind_some] at h
  split at h
  · next hcase =>
      cases h
      rw [Value.names]
      refine fun name hname => mem_singleton.mp hname ▸ ?_
      by_cases hsource : link.fromNode = draft.source
      · obtain ⟨_, _, source, hfound, _, _, houtputs⟩ := flat.sound.source
        rw [hsource, hfound] at hnode
        cases hnode
        have hmem := mem_map_of_mem (f := Port.toSocket) hreferable.mem
        rw [houtputs] at hmem
        obtain ⟨entry, hentry, heq⟩ := mem_map.mp hmem
        refine hparams (mem_map.mpr ⟨entry, hentry, ?_⟩)
        rw [← heq]
        rfl
      · have hrole : node.role.isZoneEntry = true := by
          rcases Bool.or_eq_true_iff.mp hcase with h | h
          · exact absurd (of_decide_eq_true h) hsource
          · exact h
        cases flat.place linked.ready with
        | source same => exact absurd same hsource
        | call other found unpaired path plain =>
          rw [hnode] at found
          cases found
          have hmem := hreferable.mem
          rw [plain hrole] at hmem
          cases hmem
        | entry other kind items exit last found paired shape reads shows exitFound exitRole exitReads =>
          rw [hnode] at found
          cases found
          have spanned : draft.graph.Spanned (draft.graph.span link.fromNode exit) :=
            ⟨rfl, ⟨node, hnode, hrole, paired⟩, last, exitFound, exitRole⟩
          exact hentry _ node spanned rfl hnode (shape.mem_zoneScope hreferable.mem)
        | exit other entry entryNode found plain =>
          rw [hnode] at found
          cases found
          rw [hrole] at plain
          cases plain
  · next hcase =>
      rw [Bool.not_eq_true, Bool.or_eq_false_iff, decide_eq_false_iff_not] at hcase
      have htarget := hother hcase.1 ⟨node, hnode, hcase.2⟩
      unfold References.target at htarget
      cases hlookup : (draft.refs catalog).names.lookup link.fromNode with
      | none =>
        rw [hlookup] at h
        cases h
      | some name =>
        rw [hlookup] at h htarget
        rw [Option.bind_some] at h
        have hnames : value.names = [name] := by
          split at h <;> cases h <;> rw [Value.names]
        rw [hnames]
        exact fun other hother => mem_singleton.mp hother ▸ htarget

/-- Two zones of one entry are the same. -/
theorem position_eq {position position' : Nat} {span' : Span}
    (hspan : draft.graph.spans[position]? = some span) (hspan' : draft.graph.spans[position']? = some span')
    (hentry : span.entry = span'.entry) : position = position' := by
  have hlt : position < (draft.graph.spans.map Span.entry).length := by
    rw [List.length_map]
    exact (List.getElem?_eq_some_iff.mp hspan).1
  refine (List.getElem?_inj hlt (Graph.spans_nodup flat.sound.keyed)).mp ?_
  rw [List.getElem?_map, List.getElem?_map, hspan, hspan', Option.map_some, Option.map_some, hentry]

theorem spanned_of_getElem? {position : Nat}
    (hspan : draft.graph.spans[position]? = some span) : draft.graph.Spanned span :=
  flat.sound.mem_spans.mp (mem_of_getElem? hspan)

/-- An exit is outside of all zones. -/
theorem owner?_exit (spanned : draft.graph.Spanned span) : owner? draft.graph.spans span.exit = none := by
  cases howner : owner? draft.graph.spans span.exit with
  | none => rfl
  | some position =>
    obtain ⟨span', hspan', hbody⟩ := owner?_eq_some howner
    have spanned' := flat.spanned_of_getElem? hspan'
    obtain ⟨_, hexit, hreads⟩ := flat.reads_body spanned' hbody
    rw [flat.reads_exit spanned, cons.injEq] at hreads
    obtain ⟨node, hnode, _, hpaired⟩ := spanned.found
    obtain ⟨node', hnode', _, hpaired'⟩ := spanned'.found
    rw [← hreads.1, hnode] at hnode'
    cases hnode'
    rw [hpaired] at hpaired'
    exact absurd (Option.some.inj hpaired') hexit

end

end Flat

/-! ## Statements sorted into zones -/

/-- Statements of some pieces. -/
def written (draft : Draft) (catalog : Catalog) (pieces : List Piece) : List Statement :=
  (draft.refs catalog).statements pieces

/-- Targets of the statements of some pieces. -/
def targets (draft : Draft) (catalog : Catalog) (pieces : List Piece) : List String :=
  (draft.written catalog pieces).map Statement.target

/-- The nodes of the first part of the order have been sorted into zones. Outside of all zones, and
in every zone that has not come to its end, the statements are in scope and none is missing. -/
structure Sorted (draft : Draft) (catalog : Catalog) (before : List NodeId) (nest : Nest) : Prop where
  top : Statement.ScopedIn (draft.written catalog nest.top) draft.params
  outer : ∀ id ∈ before, owner? draft.graph.spans id = none →
    (draft.refs catalog).target id ∈ draft.targets catalog nest.top
  inner : ∀ position span node, draft.graph.spans[position]? = some span → span.exit ∉ before →
    draft.graph.node? span.entry = some node →
    ∃ body, nest.bodies[position]? = some body ∧
      Statement.ScopedIn (draft.written catalog body)
        (node.zoneScope ++ (draft.targets catalog nest.top ++ draft.params)) ∧
      ∀ id ∈ before, owner? draft.graph.spans id = some position →
        (draft.refs catalog).target id ∈ draft.targets catalog body

namespace Sorted

variable {before behind : List NodeId} {nest : Nest}
    {node : Node} {position : Nat} {span : Span} {entry : Node}
  {piece : Piece} {statement : Statement}

/-- What is linked into a node has been sorted. -/
def Fed (draft : Draft) (before : List NodeId) (id : NodeId) : Prop :=
  ∀ link ∈ draft.graph.links.values, link.toNode = id → link.fromNode ≠ draft.source →
    draft.graph.Speaks link.fromNode → link.fromNode ∈ before

/-- Links into the inputs of a node. -/
theorem knows_of_links (flat : draft.Flat rules) (hnode : draft.graph.node? id = some node)
    (h : ∀ link ∈ draft.graph.links.values, link.toNode = id → ∀ value,
      (draft.refs catalog).linkValue? link = some value → value.names ⊆ known) :
    (draft.refs catalog).Knows node.inputs known := by
  intro port hport link hlink value hvalue
  obtain ⟨hlink, hto⟩ := mem_filter.mp hlink
  exact h link hlink (flat.sound.link_to hlink hnode hport (of_decide_eq_true hto)) value hvalue

section

variable (flat : draft.Flat rules) (sorted : draft.Sorted catalog before nest)
include flat sorted

/-- A node that reads outside of all zones knows what stands there. -/
theorem knows_outside (fed : Fed draft before id)
    (hnode : draft.graph.node? id = some node) (hreads : (draft.info id).reads = []) :
    (draft.refs catalog).Knows node.inputs (draft.targets catalog nest.top ++ draft.params) := by
  refine knows_of_links flat hnode fun link hlink hto value hvalue => ?_
  have linked := flat.sound.linked link hlink
  have hshows : (draft.info link.fromNode).shows = [] := by
    have hscope := linked.scope
    rw [hto, hreads] at hscope
    exact suffix_nil.mp hscope
  refine flat.names_linkValue? hlink hvalue (subset_append_right _ _) ?_ ?_
  · intro span node spanned hfrom _
    rw [hfrom] at hshows
    have hready := linked.ready
    rw [hfrom] at hready
    rw [(flat.entry_info spanned hready).2] at hshows
    cases hshows
  · intro hsource speaks
    refine mem_append_left _ (sorted.outer _ (fed link hlink hto hsource speaks) ?_)
    cases howner : owner? draft.graph.spans link.fromNode with
    | none => rfl
    | some position =>
      obtain ⟨span, hspan, hbody⟩ := owner?_eq_some howner
      have spanned := flat.spanned_of_getElem? hspan
      rw [flat.shows_inside spanned linked.ready (.inr (flat.reads_body spanned hbody))] at hshows
      cases hshows

/-- A node that belongs to no zone and ends none knows what stands outside. -/
theorem knows_free (fed : Fed draft before id)
    (live : draft.Live id) (hnode : draft.graph.node? id = some node)
    (hexit : ∀ span ∈ draft.graph.spans, span.exit ≠ id)
    (howner : owner? draft.graph.spans id = none) :
    (draft.refs catalog).Knows node.inputs (draft.targets catalog nest.top ++ draft.params) := by
  refine knows_of_links flat hnode fun link hlink hto value hvalue => ?_
  subst hto
  -- Otherwise the node would be in the body of the zone that it reads from.
  have hfree : ∀ span, draft.graph.Spanned span → ¬ (link.fromNode = span.entry ∨ link.fromNode ∈ span.body) := by
    intro span spanned hfrom
    have hspan := flat.sound.mem_spans.mpr spanned
    exact owner?_ne_none hspan (flat.mem_body spanned hlink live (hexit span hspan).symm hfrom) howner
  refine flat.names_linkValue? hlink hvalue (subset_append_right _ _) ?_ ?_
  · intro span node spanned hfrom _
    exact absurd (.inl hfrom) (hfree span spanned)
  · intro hsource speaks
    refine mem_append_left _ (sorted.outer _ (fed link hlink rfl hsource speaks) ?_)
    cases howner : owner? draft.graph.spans link.fromNode with
    | none => rfl
    | some position =>
      obtain ⟨span, hspan, hbody⟩ := owner?_eq_some howner
      exact absurd (.inr hbody) (hfree span (flat.spanned_of_getElem? hspan))

/-- A node that reads inside a zone knows the body so far, the names of the zone and what stands
outside. -/
theorem knows_inside (fed : Fed draft before id)
    (hnode : draft.graph.node? id = some node) {body : List Piece} (hspan : draft.graph.spans[position]? = some span)
    (hentry : draft.graph.node? span.entry = some entry)
    (hbody : ∀ id ∈ before, owner? draft.graph.spans id = some position →
      (draft.refs catalog).target id ∈ draft.targets catalog body) (hreads : (draft.info id).reads = [span.entry]) :
    (draft.refs catalog).Knows node.inputs
      (draft.targets catalog body ++ (entry.zoneScope ++ (draft.targets catalog nest.top ++ draft.params))) := by
  refine knows_of_links flat hnode fun link hlink hto value hvalue => ?_
  have linked := flat.sound.linked link hlink
  -- What shows inside a zone shows inside this one.
  have hsame : ∀ span', draft.graph.Spanned span' → (link.fromNode = span'.entry ∨ link.fromNode ∈ span'.body) →
      span.entry = span'.entry := by
    intro span' spanned' hfrom
    have hinside := flat.reads_of_link hlink
      (flat.shows_inside spanned' linked.ready (hfrom.imp_right (flat.reads_body spanned')))
    rw [hto, hreads] at hinside
    exact head_eq_of_cons_eq hinside
  refine flat.names_linkValue? hlink hvalue ?_ ?_ ?_
  · exact fun name hname => mem_append_right _ (mem_append_right _ (mem_append_right _ hname))
  · intro span' node' spanned' hfrom hnode'
    rw [← hsame span' spanned' (.inl hfrom), hentry] at hnode'
    cases hnode'
    exact fun name hname => mem_append_right _ (mem_append_left _ hname)
  · intro hsource speaks
    have hbefore := fed link hlink hto hsource speaks
    cases howner : owner? draft.graph.spans link.fromNode with
    | none =>
      exact mem_append_right _ (mem_append_right _ (mem_append_left _ (sorted.outer _ hbefore howner)))
    | some position' =>
      obtain ⟨span', hspan', hmem⟩ := owner?_eq_some howner
      have hentries := hsame span' (flat.spanned_of_getElem? hspan') (.inr hmem)
      rw [flat.position_eq hspan hspan' hentries] at hbody
      exact mem_append_left _ (hbody _ hbefore howner)

omit flat sorted in
/-- A statement outside of all zones is added. The zones that go on are not touched. -/
theorem push (sorted : draft.Sorted catalog before nest)
    (hpiece : (draft.refs catalog).statement? piece = some statement)
    (htarget : statement.target = (draft.refs catalog).target id)
    (hscoped : statement.Scoped (draft.targets catalog nest.top ++ draft.params))
    (howner : owner? draft.graph.spans id = none) {bodies : List (List Piece)}
    (hbodies : ∀ (position : Nat) (span : Span), draft.graph.spans[position]? = some span → span.exit ≠ id →
      bodies[position]? = nest.bodies[position]?) :
    draft.Sorted catalog (before ++ [id]) ⟨bodies, nest.top ++ [piece]⟩ := by
  have hwritten : draft.written catalog (nest.top ++ [piece]) = draft.written catalog nest.top ++ [statement] :=
    References.statements_concat _ _ hpiece
  have htargets : draft.targets catalog (nest.top ++ [piece]) =
      draft.targets catalog nest.top ++ [(draft.refs catalog).target id] := by
    unfold targets
    rw [hwritten, map_append, map_singleton, htarget]
  refine ⟨?_, fun other hother hnone => ?_, fun position span node hspan hexit hnode => ?_⟩
  · rw [hwritten]
    exact sorted.top.append (.singleton hscoped)
  · rw [htargets]
    rcases mem_append.mp hother with hother | hother
    · exact mem_append_left _ (sorted.outer other hother hnone)
    · rw [mem_singleton.mp hother]
      exact mem_append_right _ (mem_singleton_self _)
  · rw [mem_append, not_or, mem_singleton] at hexit
    obtain ⟨body, hbody, hinner, hids⟩ := sorted.inner position span node hspan hexit.1 hnode
    refine ⟨body, (hbodies position span hspan hexit.2).trans hbody,
      hinner.mono ?_, fun other hother hposition => ?_⟩
    · rw [htargets]
      refine Statement.append_right_subset _ (append_subset.mpr ⟨?_, subset_append_right _ _⟩)
      exact fun name hname => mem_append_left _ (mem_append_left _ hname)
    · rcases mem_append.mp hother with hother | hother
      · exact hids other hother hposition
      · rw [mem_singleton.mp hother, howner] at hposition
        cases hposition

omit flat sorted in
/-- A statement is added to the body of a zone. -/
theorem pushInto (sorted : draft.Sorted catalog before nest)
    (hpiece : (draft.refs catalog).statement? piece = some statement)
    (htarget : statement.target = (draft.refs catalog).target id) (hspan : draft.graph.spans[position]? = some span)
    (hentry : draft.graph.node? span.entry = some entry) (howner : owner? draft.graph.spans id = some position)
    (hscoped : ∀ body, (∀ id ∈ before, owner? draft.graph.spans id = some position →
        (draft.refs catalog).target id ∈ draft.targets catalog body) →
      statement.Scoped (draft.targets catalog body ++
        (entry.zoneScope ++ (draft.targets catalog nest.top ++ draft.params)))) :
    draft.Sorted catalog (before ++ [id]) ⟨nest.bodies.modify position (· ++ [piece]), nest.top⟩ := by
  refine ⟨sorted.top, fun other hother hnone => ?_, fun position' span' node hspan' hexit hnode => ?_⟩
  · rcases mem_append.mp hother with hother | hother
    · exact sorted.outer other hother hnone
    · rw [mem_singleton.mp hother, howner] at hnone
      cases hnone
  · rw [mem_append, not_or] at hexit
    obtain ⟨body, hbody, hinner, hids⟩ := sorted.inner position' span' node hspan' hexit.1 hnode
    rw [getElem?_modify, hbody]
    by_cases hsame : position = position'
    · subst hsame
      rw [hspan] at hspan'
      cases hspan'
      rw [hentry] at hnode
      cases hnode
      have hwritten : draft.written catalog (body ++ [piece]) = draft.written catalog body ++ [statement] :=
        References.statements_concat _ _ hpiece
      refine ⟨body ++ [piece], congrArg some (if_pos rfl), ?_, fun other hother hposition => ?_⟩
      · rw [hwritten]
        exact hinner.append (.singleton (hscoped body hids))
      · unfold targets
        rw [hwritten, map_append, map_singleton, htarget]
        rcases mem_append.mp hother with hother | hother
        · exact mem_append_left _ (hids other hother hposition)
        · rw [mem_singleton.mp hother]
          exact mem_append_right _ (mem_singleton_self _)
    · refine ⟨body, congrArg some (if_neg hsame), hinner, fun other hother hposition => ?_⟩
      rcases mem_append.mp hother with hother | hother
      · exact hids other hother hposition
      · rw [mem_singleton.mp hother, howner] at hposition
        exact absurd (Option.some.inj hposition) hsame

omit flat sorted in
/-- What is linked into a node, or into the entry of the zone it ends, stands before it. -/
theorem fed (flat : draft.Flat rules) (hsplit : draft.order = before ++ id :: behind) : Fed draft before id := by
  rintro link hlink rfl hsource speaks
  exact flat.mem_before hsplit (.single (mem_append_right _ (flat.sound.mem_producersOf hlink))) speaks
    (flat.sound.linked link hlink).ready hsource

omit flat sorted in
theorem fed_entry (flat : draft.Flat rules) (spanned : draft.graph.Spanned span)
    (hsplit : draft.order = before ++ span.exit :: behind) : Fed draft before span.entry := by
  intro link hlink hto hsource speaks
  have hentry : span.entry ∈ draft.graph.dependencies draft.graph.spans span.exit :=
    mem_append_left _ (Option.mem_toList.mpr (flat.entryOf?_exit spanned))
  have hfrom : link.fromNode ∈ draft.graph.dependencies draft.graph.spans span.entry :=
    mem_append_right _ (hto ▸ flat.sound.mem_producersOf hlink)
  exact flat.mem_before hsplit (.tail (.single hentry) hfrom) speaks (flat.sound.linked link hlink).ready hsource

/-- A zone comes to its end. -/
theorem placeZone
    (hspan : draft.graph.spans[position]? = some span) (hsplit : draft.order = before ++ span.exit :: behind) :
    draft.Sorted catalog (before ++ [span.exit])
      ⟨nest.bodies.set position [], nest.top ++ [.zone span (nest.bodies.getD position [])]⟩ := by
  have spanned := flat.spanned_of_getElem? hspan
  have hnew : span.exit ∉ before := by
    have hnodup := order_nodup draft
    rw [hsplit] at hnodup
    exact fun hmem => (nodup_append.mp hnodup).2.2 _ hmem _ mem_cons_self rfl
  have hreads := flat.reads_exit spanned
  have hdone : span.exit ∈ draft.done := by
    have hmem : span.exit ∈ draft.order := hsplit ▸ mem_append_right _ mem_cons_self
    refine (flat.done_of_live (live_of_mem_order hmem)).resolve_right fun h => ?_
    rw [h, flat.sound.sink.2.1] at hreads
    cases hreads
  obtain ⟨entry, hentry, _⟩ := spanned.found
  obtain ⟨exit, hexit, _⟩ := spanned.exit
  obtain ⟨body, hbody, hinner, hids⟩ := sorted.inner position span entry hspan hnew hentry
  have hget : nest.bodies.getD position [] = body := by
    rw [getD_eq_getElem?_getD, hbody]
    rfl
  rw [hget]
  have hzone : (draft.refs catalog).statement? (.zone span body) =
      some (.zone ((draft.refs catalog).target span.exit)
      (References.zoneKind entry) ((References.items entry.inputs).map itemParameter)
      (entry.enabledInputs.filterMap fun port =>
        ((draft.refs catalog).portValue? port !port.zoneItem).map fun value => (snakeCase port.name, value))
      (draft.written catalog body)
      (leading (fun port => (draft.refs catalog).portValue? port false)
        (References.items exit.inputs))) := by
    rw [statement?, zoneStatement?,
      show (draft.refs catalog).graph.node? span.entry = some entry from hentry,
      show (draft.refs catalog).graph.node? span.exit = some exit from hexit]
    rfl
  refine sorted.push hzone rfl ?_ (flat.owner?_exit spanned) ?_
  · rw [Statement.Scoped]
    refine ⟨fun arg harg => ?_, hinner, fun value hvalue => ?_⟩
    · obtain ⟨port, hport, hsome⟩ := mem_filterMap.mp harg
      obtain ⟨value, hvalue, rfl⟩ := Option.map_eq_some_iff.mp hsome
      have hentryDone := ((flat.partners spanned).first hdone).1
      exact (sorted.knows_outside flat (fed_entry flat spanned hsplit) hentry
        (flat.entry_info spanned hentryDone).1).names_portValue? (mem_of_mem_filter hport) hvalue
    · obtain ⟨port, hport, hvalue⟩ := References.mem_leading hvalue
      exact (sorted.knows_inside flat (fed flat hsplit) hexit hspan hentry hids hreads).names_portValue?
        (mem_of_mem_filter hport) hvalue
  · intro position' span' hspan' hne
    rw [getElem?_set, if_neg]
    rintro rfl
    rw [hspan] at hspan'
    cases hspan'
    exact hne rfl

/-- A call is sorted. -/
theorem placeCall
    (hsplit : draft.order = before ++ id :: behind) (hexit : ∀ span ∈ draft.graph.spans, span.exit ≠ id) :
    draft.Sorted catalog (before ++ [id]) (match owner? draft.graph.spans id with
      | some position => { nest with bodies := nest.bodies.modify position (· ++ [.call id]) }
      | none => { nest with top := nest.top ++ [.call id] }) := by
  have hmem : id ∈ draft.order := hsplit ▸ mem_append_right _ mem_cons_self
  have live := live_of_mem_order hmem
  obtain ⟨node, hnode⟩ := Option.isSome_iff_exists.mp (flat.founded.present (flat.done_of_live live))
  have hcall : (draft.refs catalog).statement? (.call id) = some (.call ((draft.refs catalog).target id)
      (functionOf node) ((draft.refs catalog).arguments node)) := by
    rw [statement?, callStatement?,
      show (draft.refs catalog).graph.node? id = some node from hnode]
    rfl
  cases howner : owner? draft.graph.spans id with
  | none =>
    refine sorted.push hcall rfl ?_ howner fun _ _ _ _ => rfl
    rw [Statement.Scoped]
    exact (sorted.knows_free flat (fed flat hsplit) live hnode hexit howner).names_arguments
  | some position =>
    obtain ⟨span, hspan, hbody⟩ := owner?_eq_some howner
    have spanned := flat.spanned_of_getElem? hspan
    obtain ⟨entry, hentry, _⟩ := spanned.found
    refine sorted.pushInto hcall rfl hspan hentry howner fun body hids => ?_
    rw [Statement.Scoped]
    exact (sorted.knows_inside flat (fed flat hsplit) hnode hspan hentry hids
      (flat.reads_body spanned hbody).2.2).names_arguments

theorem place
    (hsplit : draft.order = before ++ id :: behind) :
    draft.Sorted catalog (before ++ [id]) (Piece.place draft.graph.spans nest id) := by
  unfold Piece.place Piece.take
  cases hfind : draft.graph.spans.findIdx? fun span => span.exit = id with
  | none =>
    refine sorted.placeCall flat hsplit fun span hspan heq => ?_
    have hnone := findIdx?_eq_none_iff.mp hfind span hspan
    rw [decide_eq_false_iff_not] at hnone
    exact hnone heq
  | some position =>
    obtain ⟨hlt, heq, _⟩ := findIdx?_eq_some_iff_getElem.mp hfind
    have hspan := getElem?_eq_getElem hlt
    obtain rfl := of_decide_eq_true heq
    dsimp only
    rw [hspan]
    dsimp only
    rw [flat.owner?_exit (flat.spanned_of_getElem? hspan)]
    exact sorted.placeZone flat hspan hsplit

end

/-- The whole order is sorted. -/
theorem foldl_place (flat : draft.Flat rules) (behind : List NodeId) (sorted : draft.Sorted catalog before nest)
    (hsplit : draft.order = before ++ behind) :
    draft.Sorted catalog draft.order (behind.foldl (Piece.place draft.graph.spans) nest) := by
  induction behind generalizing before nest with
  | nil =>
    rw [append_nil] at hsplit
    exact hsplit ▸ sorted
  | cons id rest ih => exact ih (sorted.place flat hsplit) (by rw [append_assoc]; exact hsplit)

theorem blank (draft : Draft) (catalog : Catalog) :
    draft.Sorted catalog [] ⟨draft.graph.spans.map fun _ => [], []⟩ := by
  have hnone : draft.written catalog [] = [] := by
    unfold written
    rw [statements]
  have hscoped : ∀ known, Statement.ScopedIn (draft.written catalog []) known := fun known => by
    rw [hnone, Statement.ScopedIn]
    trivial
  refine ⟨hscoped _, fun _ h => absurd h not_mem_nil, fun position span node hspan _ _ => ?_⟩
  refine ⟨[], ?_, hscoped _, fun _ h => absurd h not_mem_nil⟩
  rw [getElem?_map, hspan]
  rfl

end Sorted

/-! ## Whole programs -/

/-- The boundary nodes of a draft are those that are found in its graph. -/
theorem Sound.ofGraph_eq (sound : draft.Sound rules) (catalog : Catalog) :
    ∃ sink, draft.graph.node? draft.sink = some sink ∧
    Decompilation.ofGraph draft.graph catalog =
      .ok ⟨draft.refs catalog, nest draft.graph.spans draft.order, sink⟩ := by
  obtain ⟨_, _, source, hsource, hinput, _⟩ := sound.source
  obtain ⟨_, _, sink, hsink, houtput, _⟩ := sound.sink
  obtain ⟨first, hfirst⟩ := Graph.exists_source? hsource hinput
  obtain ⟨last, others, hlast⟩ := Graph.exists_sinks hsink houtput
  have hfirstId : first.id = draft.source := by
    obtain ⟨id, hid⟩ := OrderedMap.mem_values_iff.mp (mem_of_find?_eq_some hfirst)
    have hrole : first.role = .groupInput := by simpa using find?_some hfirst
    rw [sound.keyed hid]
    refine (sound.boundary hid (by rw [hrole]; rfl)).resolve_right fun heq => ?_
    rw [heq] at hid
    cases hsink.symm.trans hid
    rw [houtput] at hrole
    cases hrole
  have hlastMem : last ∈ draft.graph.sinks := hlast ▸ mem_cons_self
  have hlastId : last.id = draft.sink ∧ draft.graph.node? draft.sink = some last := by
    obtain ⟨hvalue, hrole⟩ := mem_filter.mp hlastMem
    obtain ⟨id, hid⟩ := OrderedMap.mem_values_iff.mp hvalue
    have hrole := of_decide_eq_true hrole
    have heq : id = draft.sink := by
      refine (sound.boundary hid (by rw [hrole]; rfl)).resolve_left fun heq => ?_
      rw [heq] at hid
      cases hsource.symm.trans hid
      rw [hinput] at hrole
      cases hrole
    exact ⟨(sound.keyed hid).trans heq, heq ▸ hid⟩
  refine ⟨last, hlastId.2, ?_⟩
  unfold Decompilation.ofGraph
  rw [hfirst, hlast]
  dsimp only
  rw [hfirstId, hlastId.1]
  rfl

namespace Flat

/-- The graph of a draft without nested zones decompiles to a program whose names are all in
scope. -/
theorem exists_wellScoped (flat : draft.Flat rules) (catalog : Catalog) :
    ∃ program, draft.graph.decompile catalog = .ok program ∧ program.WellScoped := by
  obtain ⟨sink, hsink, hgraph⟩ := flat.sound.ofGraph_eq catalog
  have sorted := (Sorted.blank draft catalog).foldl_place flat draft.order rfl
  have hparams : (draft.graph.interface.inputs.map Decompilation.parameter).map Parameter.name = draft.params :=
    map_map
  unfold Graph.decompile
  rw [hgraph]
  refine ⟨_, rfl, ?_, fun result hresult => ?_⟩
  · change Statement.ScopedIn _ ((draft.graph.interface.inputs.map Decompilation.parameter).map Parameter.name)
    rw [hparams]
    exact sorted.top
  · change _ ⊆ _ ++ (draft.graph.interface.inputs.map Decompilation.parameter).map Parameter.name
    rw [hparams]
    obtain ⟨port, hport, hsome⟩ := mem_filterMap.mp hresult
    obtain ⟨value, hvalue, rfl⟩ := Option.map_eq_some_iff.mp hsome
    have fed : Sorted.Fed draft draft.order draft.sink := fun link hlink hto hsource speaks =>
      flat.mem_order_of_producer hlink hto speaks hsource
    exact (sorted.knows_outside flat fed hsink flat.sound.sink.2.1).names_portValue? (mem_of_mem_filter hport) hvalue

end Flat

end Draft

namespace Script.Program

open Build

/-- A program with a faulty signature changes nothing. Otherwise the graph it leaves behind, whether
the build succeeds or not, decompiles to a program whose names are all in scope, if no zone of the
program is inside another one and the entry of a simulation is never called by itself. -/
theorem wellScoped_decompile (s : Supply) (program : Program) (b : Build) (hdepth : program.depth ≤ 1)
    (hcalls : ∀ target args, Statement.call target "simulation_input" args ∉ program.parts) :
    (∃ e, program.inputs (Session.standard s) = .error e ∧
      exec (program.build (Session.standard s)) b = (.error e, b)) ∨
      ∃ graph decompiled, (exec (program.build (Session.standard s)) b).2.store.get? program.name = some graph ∧
        graph.decompile (Session.standard s).catalog = .ok decompiled ∧ decompiled.WellScoped := by
  cases hinputs : program.inputs (Session.standard s) with
  | error e => exact .inl ⟨e, rfl, exec_build_error hinputs b⟩
  | ok params =>
    obtain ⟨graph, store, inputs, hget, built, _⟩ := built_build s hinputs b
    obtain ⟨draft, rfl, sound, _, coupled⟩ := built.drafted
    have flat : draft.Flat (rulesOf store program) := by
      refine ⟨sound, coupled, hdepth, ?_⟩
      rintro names ⟨statement, hpart, hstatement⟩
      cases statement with
      | call target function args =>
        obtain ⟨rfl, _⟩ := hstatement
        exact hcalls target args hpart
      | zone => exact hstatement
    obtain ⟨decompiled, hdecompiled, wellScoped⟩ := flat.exists_wellScoped (Session.standard s).catalog
    exact .inr ⟨draft.graph, decompiled, hget, hdecompiled, wellScoped⟩

/-- A program that adds its parameter twice to a number. -/
def addTwice : Program where
  name := "Add"
  params := [⟨"step", "Float", none⟩]
  statements := [.zone "total" .repetition [⟨"sum", "Float", none⟩]
    [("iterations", .literal (.int 2)), ("sum", .name "step")]
    [.call "next" "math" [("value", .list [.name "sum", .name "step"])]] [.name "next"]]
  returns := [("Total", .name "total")]

theorem inputs_addTwice (catalog : Catalog) : ∃ params, addTwice.inputs (.ofCatalog catalog) = .ok params := by
  have hok : (addTwice.inputs (.ofCatalog catalog)).isOk = true := by cbv
  cases hinputs : addTwice.inputs (.ofCatalog catalog) with
  | error e =>
    rw [hinputs] at hok
    cases hok
  | ok params => exact ⟨params, rfl⟩

theorem wellScoped_decompile_addTwice :
    let session := Session.standard {}
    let b : Build := { store := .empty, supply := {} }
    ∃ graph decompiled, (exec (addTwice.build session) b).2.store.get? "Add" = some graph ∧
      graph.decompile session.catalog = .ok decompiled ∧ decompiled.WellScoped := by
  have hcalls : ∀ target args, Statement.call target "simulation_input" args ∉ addTwice.parts := by
    simp [addTwice, parts, Statement.partsIn, Statement.parts]
  rcases wellScoped_decompile {} addTwice { store := .empty, supply := {} } (by decide) hcalls
    with ⟨e, herror, _⟩ | h
  · obtain ⟨params, hparams⟩ := inputs_addTwice (Catalog.standard {}).1
    rw [Session.standard, hparams] at herror
    cases herror
  · exact h

/-- A zone inside a zone, with as many nodes in its body as in the one around it. -/
def tangle : Program where
  name := "Tangle"
  params := [⟨"start", "Float", none⟩]
  statements := [.zone "outer" .repetition [⟨"x", "Float", none⟩]
    [("iterations", .literal (.int 3)), ("x", .name "start")]
    [.zone "inner" .repetition [⟨"y", "Float", none⟩]
      [("iterations", .literal (.int 2)), ("y", .name "start")]
      [.call "a" "math" [("value", .list [.name "y", .name "start"])],
        .call "b" "math" [("value", .list [.name "a", .name "x"])]]
      [.name "b"]]
    [.name "inner"]]
  returns := [("Result", .name "outer")]

/-- The second statement of the inner body comes back in the outer one, where it does not know the
first. -/
theorem not_wellScoped_tangle :
    let built := exec (tangle.build (Session.standard {})) { store := .empty, supply := {} }
    built.1 = .ok () ∧ ∃ graph decompiled, built.2.store.get? "Tangle" = some graph ∧
      graph.decompile (Session.standard {}).catalog = .ok decompiled ∧ ¬ decompiled.WellScoped := by
  intro built
  have hrun : decompilesTo "Tangle" (Session.standard {}).catalog
      (fun decompiled => decide (¬ decompiled.WellScoped)) built = true := by
    decide +kernel
  obtain ⟨hbuilt, graph, decompiled, hgraph, hdecompiled, hfault⟩ := exists_of_decompilesTo hrun
  exact ⟨hbuilt, graph, decompiled, hgraph, hdecompiled, of_decide_eq_true hfault⟩

end Script.Program

end NodeScript
