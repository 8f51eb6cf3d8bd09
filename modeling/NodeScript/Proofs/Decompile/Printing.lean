import NodeScript.Proofs.Decompile.Conservation
import NodeScript.Proofs.Script.Spelling

/-!
# Decompiled text

The text of a decompiled program is a script again and reads back as that program, if the names that
the script gives to its graph, its parameters, its items and the graphs it refers to come back as
identifiers, and if the interfaces of the graphs that it calls can be written. All other names are
identifiers because the script has been read from a text, or because they are written in the
catalog.
-/

namespace NodeScript

open Script List References

/-! ## Shapes of nodes -/

/-- The arguments for nodes of the shape have names that can be written. -/
structure Kind.Legible (spec : KindSpec) : Prop where
  properties : ∀ decl ∈ spec.properties, isIdentifier decl.name = true
  inputs : ∀ socket ∈ spec.inputs, isIdentifier (snakeCase socket.name) = true
  outputs : ∀ socket ∈ spec.outputs, socket.default.isSome = true → isIdentifier (snakeCase socket.name) = true

/-- All names in the standard catalog are identifiers. -/
theorem standardKinds_names : ∀ spec ∈ Catalog.standardKinds, isIdentifier (snakeCase spec.name) = true ∧
    (∀ decl ∈ spec.properties, isIdentifier decl.name = true) ∧
    ∀ socket ∈ spec.inputs ++ spec.outputs, isIdentifier (snakeCase socket.name) = true := by
  decide +kernel

namespace Kind.Legible

variable {spec : KindSpec}

theorem ofStandard (listed : spec ∈ Catalog.standardKinds) : Kind.Legible spec where
  properties := (standardKinds_names spec listed).2.1
  inputs socket hsocket := (standardKinds_names spec listed).2.2 socket (mem_append_left _ hsocket)
  outputs socket hsocket _ := (standardKinds_names spec listed).2.2 socket (mem_append_right _ hsocket)

/-- Items have no defaults, so only their inputs have to be written. -/
theorem withItems (legible : Kind.Legible spec) {items : List (String × SocketType)}
    (hitems : ∀ item ∈ items, isIdentifier (snakeCase item.1) = true) : Kind.Legible (spec.withItems items) where
  properties := legible.properties
  inputs := by
    intro socket hsocket
    rcases mem_append.mp hsocket with hbase | hitem
    · exact legible.inputs socket hbase
    · obtain ⟨item, hmem, rfl⟩ := mem_map.mp hitem
      exact hitems item hmem
  outputs := by
    intro socket hsocket hdefault
    rcases mem_append.mp hsocket with hbase | hitem
    · exact legible.outputs socket hbase hdefault
    · obtain ⟨item, hmem, rfl⟩ := mem_map.mp hitem
      cases hdefault

end Kind.Legible

/-- The names on an interface that a call has to write are identifiers, and its defaults are
finite. -/
structure Interface.Legible (interface : Interface) : Prop where
  inputs : ∀ entry ∈ interface.inputs, isIdentifier (snakeCase entry.name) = true
  outputs : ∀ entry ∈ interface.outputs, entry.default.isSome = true → isIdentifier (snakeCase entry.name) = true
  finite : ∀ entry ∈ interface.inputs ++ interface.outputs, ∀ value, entry.default = some value →
    finiteLiteral value = true

theorem Interface.Legible.groupSpec {interface : Interface} (legible : interface.Legible) (name : String) :
    Kind.Legible (groupSpec name interface) where
  properties := by
    intro decl hdecl
    rw [mem_singleton.mp hdecl]
    rfl
  inputs := by
    intro socket hsocket
    obtain ⟨entry, hentry, rfl⟩ := mem_map.mp hsocket
    exact legible.inputs entry hentry
  outputs := by
    intro socket hsocket hdefault
    obtain ⟨entry, hentry, rfl⟩ := mem_map.mp hsocket
    exact legible.outputs entry hentry hdefault

namespace Node.Instantiates

variable {node : Node} {spec : KindSpec} {program : Program}

/-- A node of a legible shape that holds finite values is legible if its function is. -/
theorem legible (shape : node.Instantiates spec) (hspec : Kind.Legible spec)
    (holds : node.Holds (Allowance.finite program)) (inner : node.role.isBoundary = false)
    (hfunction : isIdentifier (functionOf node) = true) : node.Legible where
  function := hfunction
  properties := by
    intro property hproperty
    have hdecl : property.decl ∈ spec.properties := shape.decls ▸ mem_map_of_mem hproperty
    exact ⟨hspec.properties _ hdecl, holds.properties property hproperty⟩
  inputs := by
    intro port hport
    obtain ⟨socket, hsocket, fits⟩ := forall₂_exists_left shape.inputs hport
    refine ⟨?_, fun value => holds.defaults inner port (mem_append_left _ hport) value⟩
    rw [fits.name]
    exact hspec.inputs socket hsocket
  outputs := by
    intro port hport hdefault
    obtain ⟨socket, hsocket, fits, silent⟩ := forall₂_exists_left (forall₂_and shape.outputs shape.silent) hport
    refine ⟨?_, fun value => holds.defaults inner port (mem_append_right _ hport) value⟩
    rw [fits.name]
    refine hspec.outputs socket hsocket ?_
    cases hsilent : socket.default with
    | some value => rfl
    | none =>
      rw [silent hsilent] at hdefault
      cases hdefault

/-- A node without a reference is made by the function of its kind. -/
theorem functionOf_eq (shape : node.Instantiates spec) (h : ∀ decl ∈ spec.properties, decl.name ≠ graphProperty) :
    functionOf node = snakeCase spec.name := by
  have hnone : node.graph? = none := by
    unfold Node.graph? Node.property?
    rw [find?_eq_none.mpr]
    · rfl
    · intro property hproperty
      rw [decide_eq_true_eq]
      exact h _ (shape.decls ▸ mem_map_of_mem hproperty)
  rw [functionOf, hnone, ← shape.name]
  rfl

end Node.Instantiates

/-! ## Drafts -/

/-- What the rules allow can be written. -/
structure Rules.Legible (rules : Rules) : Prop where
  callee : ∀ function args name interface, rules.call function args →
    rules.callee? function = some (name, interface) →
    snakeCase name = function ∧ interface.Legible
  item : ∀ name, rules.item name → isIdentifier (snakeCase (titleCase name)) = true
  call : ∀ function args, rules.call function args → isIdentifier function = true
  refers : ∀ function text, (rules.callee? function).isSome = true → rules.refers function text →
    isIdentifier (snakeCase text) = true
  selected : ∀ output, rules.selected output → isIdentifier output = true

theorem Rules.Legible.items {rules : Rules} (legible : rules.Legible) {items : List (String × SocketType)}
    (named : ∀ item ∈ items, ∃ name, rules.item name ∧ item.1 = titleCase name ∧ item.2 ∈ SocketType.standard) :
    ∀ item ∈ items, isIdentifier (snakeCase item.1) = true := by
  intro item hitem
  obtain ⟨name, hname, htitle, _⟩ := named item hitem
  rw [htitle]
  exact legible.item name hname

namespace Draft

variable {rules : Rules} {draft : Draft} {program : Program} {id : NodeId} {node : Node}

namespace Sound

variable (sound : draft.Sound rules) (coupled : draft.Coupled) {port : Port}
include sound coupled

/-- Completed nodes are legible, apart from group nodes that stand for no graph: these have no
outputs. -/
theorem legible_of_done (legible : rules.Legible)
    (hdone : id ∈ draft.done) (hsource : id ≠ draft.source) (hnode : draft.graph.node? id = some node)
    (holds : node.Holds (Allowance.finite program))
    (shown : node.outputs ≠ [] ∨ node.pairedOutput.isSome = true) : node.Legible := by
  have inner := sound.inner_of_done hdone hsource hnode
  have shape := (sound.shaped hnode inner).2
  cases sound.completed hdone hsource hnode with
  | plain spec listed _ hshape unpaired =>
    rw [hshape] at shape
    refine shape.legible (.ofStandard listed) holds inner ?_
    by_cases hgroup : spec.role = .group
    · have houtputs := shape.outputs
      rw [eq_bareGroupSpec listed hgroup] at houtputs
      rcases shown with houtput | hpaired
      · exact absurd (forall₂_nil_left_iff.mp houtputs) houtput
      · rw [unpaired] at hpaired
        cases hpaired
    · rw [shape.functionOf_eq ((standardKinds_references spec listed).1 hgroup)]
      exact (standardKinds_names spec listed).1
  | group function name interface args callee called hshape _ _ _ refers =>
    obtain ⟨hname, hinterface⟩ := legible.callee function args name interface called callee
    rw [hshape] at shape
    refine shape.legible (hinterface.groupSpec name) holds inner ?_
    have hfunction := legible.call function args called
    unfold functionOf
    cases htext : node.graph? with
    | none =>
      rw [Option.getD_none, shape.name]
      exact hname ▸ hfunction
    | some text =>
      rw [Option.getD_some]
      rcases refers text htext with rfl | hrefers
      · exact hname ▸ hfunction
      · exact legible.refers function text (by rw [callee]; rfl) hrefers
  | entry kind items exit _ hshape _ _ _ _ named =>
    rw [hshape] at shape
    refine shape.legible ((Kind.Legible.ofStandard kind.entrySpec_mem).withItems (legible.items named))
      holds inner ?_
    rw [shape.functionOf_eq (by cases kind <;> exact fun _ h => by cases h)]
    exact (standardKinds_names _ kind.entrySpec_mem).1
  | exit _ _ entry entryNode entryDone found paired =>
    obtain ⟨kind, items, _, hshape, named, _⟩ := sound.exists_items coupled entryDone found paired
    rw [hshape] at shape
    refine shape.legible ((Kind.Legible.ofStandard kind.exitSpec_mem).withItems (legible.items named)) holds inner ?_
    rw [shape.functionOf_eq (by cases kind <;> exact fun _ h => by cases h)]
    exact (standardKinds_names _ kind.exitSpec_mem).1

/-- Outputs that a script can refer to have names that can be written; only the name of the single
output of a group node may be anything, as it is not needed. -/
theorem isIdentifier_referable (legible : rules.Legible)
    (hdone : id ∈ draft.done) (hsource : id ≠ draft.source) (hnode : draft.graph.node? id = some node)
    (referable : node.Referable rules port) : isIdentifier (snakeCase port.name) = true ∨
      node.role = .group ∧ node.enabledOutputs.length = 1 := by
  have inner := sound.inner_of_done hdone hsource hnode
  have shape := (sound.shaped hnode inner).2
  have hzone : ∀ {spec : KindSpec} {items : List (String × SocketType)}, spec ∈ Catalog.standardKinds →
      (∀ item ∈ items, ∃ name, rules.item name ∧ item.1 = titleCase name ∧ item.2 ∈ SocketType.standard) →
      node.Instantiates (spec.withItems items) → isIdentifier (snakeCase port.name) = true := by
    intro spec items listed named shape
    obtain ⟨socket, hsocket, fits⟩ := forall₂_exists_left shape.outputs referable.mem
    rw [fits.name]
    rcases mem_append.mp hsocket with hbase | hitem
    · exact (standardKinds_names spec listed).2.2 socket (mem_append_right _ hbase)
    · obtain ⟨item, hmem, rfl⟩ := mem_map.mp hitem
      exact legible.items named item hmem
  cases sound.completed hdone hsource hnode with
  | plain spec listed _ hshape =>
    rw [hshape] at shape
    obtain ⟨socket, hsocket, fits⟩ := forall₂_exists_left shape.outputs referable.mem
    rw [fits.name]
    exact .inl ((standardKinds_names spec listed).2.2 socket (mem_append_right _ hsocket))
  | group function name interface args callee called hshape =>
    rw [hshape] at shape
    have hrole : node.role = .group := shape.role
    have hnamed := referable.named
    rw [hrole] at hnamed
    rcases hnamed.2 with hsingle | hselected
    · exact .inr ⟨hrole, hsingle⟩
    · exact .inl (legible.selected _ hselected)
  | entry kind items exit _ hshape _ _ _ _ named => exact .inl (hzone kind.entrySpec_mem named (hshape ▸ shape))
  | exit _ _ entry entryNode entryDone found paired =>
    obtain ⟨kind, items, _, hshape, named, _⟩ := sound.exists_items coupled entryDone found paired
    exact .inl (hzone kind.exitSpec_mem named (hshape ▸ shape))

/-- What links carry can be written. -/
theorem legible_refs (legible : rules.Legible)
    (hinputs : ∀ entry ∈ draft.graph.interface.inputs, isIdentifier (snakeCase entry.name) = true)
    (catalog : Catalog) :
    (draft.refs catalog).Legible := by
  intro link hlink value hvalue
  have linked := sound.linked link hlink
  obtain ⟨node, port, hnode, hid, referable⟩ := linked.start
  have hport : node.port? link.fromPort = some port :=
    hid ▸ Node.port?_of_mem (sound.distinct hnode) (mem_append_right _ referable.mem)
  unfold linkValue? at hvalue
  rw [show (draft.refs catalog).graph.node? link.fromNode = some node from hnode] at hvalue
  simp only [hport, Option.bind_eq_bind, Option.bind_some] at hvalue
  split at hvalue
  · next hcase =>
      cases hvalue
      apply Value.printable_snakeCase
      by_cases hsource : link.fromNode = draft.source
      · obtain ⟨_, _, source, hfound, _, _, houtputs⟩ := sound.source
        rw [hsource, hfound] at hnode
        cases hnode
        have hmem := mem_map_of_mem (f := Port.toSocket) referable.mem
        rw [houtputs] at hmem
        obtain ⟨entry, hentry, heq⟩ := mem_map.mp hmem
        have hname : port.name = entry.name := congrArg Socket.name heq.symm
        rw [hname]
        exact hinputs entry hentry
      · refine (sound.isIdentifier_referable coupled legible linked.ready hsource hnode referable).resolve_right ?_
        rintro ⟨hrole, _⟩
        rw [Bool.or_eq_true, decide_eq_true_eq, hrole] at hcase
        exact hcase.elim hsource fun h => by cases h
  · next hcase =>
      rw [Bool.not_eq_true, Bool.or_eq_false_iff, decide_eq_false_iff_not] at hcase
      cases hlookup : (draft.refs catalog).names.lookup link.fromNode with
      | none =>
        rw [hlookup] at hvalue
        cases hvalue
      | some name =>
        obtain ⟨before, behind, hsplit, _⟩ := lookup_eq_some_iff.mp hlookup
        obtain ⟨category, n, rfl, _⟩ := numbered_of_mem_statementNames draft.graph catalog draft.order [] (_, name)
          (show _ ∈ (draft.refs catalog).names from hsplit ▸ mem_append_right _ mem_cons_self)
        rw [hlookup, Option.bind_some] at hvalue
        split at hvalue
        · cases hvalue
          exact category.printable_numbered n
        · next hseveral =>
            cases hvalue
            have houtput := (sound.isIdentifier_referable coupled legible linked.ready hcase.1 hnode
              referable).resolve_right fun h => hseveral h.2
            simp [Value.printable, category.isIdentifier_numbered n, houtput]

/-- A node with a statement is inside the graph, completed and shown. -/
theorem shown_of_mem_order (hid : id ∈ draft.order) :
    id ∈ draft.done ∧ id ≠ draft.source ∧ ∃ node, draft.graph.node? id = some node ∧
      (node.outputs ≠ [] ∨ node.pairedOutput.isSome = true) := by
  have hends := (mem_filter.mp hid).2
  rw [Bool.and_eq_true, decide_eq_true_eq, decide_eq_true_eq] at hends
  obtain ⟨hdone, hshown⟩ := (sound.shown_of_live coupled (live_of_mem_order hid)).resolve_left hends.2
  exact ⟨hdone, hends.1, hshown⟩

theorem isIdentifier_target (hid : id ∈ draft.order)
    (catalog : Catalog) : isIdentifier ((draft.refs catalog).target id) = true := by
  obtain ⟨_, _, node, hnode, _⟩ := sound.shown_of_mem_order coupled hid
  have hpresent : id ∈ (draft.refs catalog).present draft.order :=
    mem_filter.mpr ⟨hid, Option.isSome_iff_exists.mpr ⟨node, hnode⟩⟩
  have hnames : (draft.refs catalog).names = statementNames draft.graph catalog draft.order [] := rfl
  obtain ⟨category, n, htarget⟩ := numbered_target hnames hpresent
  rw [htarget]
  exact category.isIdentifier_numbered n

/-- The ports of an entry that belong to items are those of items of the program. -/
theorem exists_item {entry exit : NodeId}
    (hdone : entry ∈ draft.done) (hnode : draft.graph.node? entry = some node)
    (hpaired : node.pairedOutput = some exit)
    (hport : port ∈ References.items node.inputs) :
    ∃ name, rules.item name ∧ port.name = titleCase name ∧ port.type ∈ SocketType.standard := by
  obtain ⟨kind, items, hshape, _, named, _⟩ := sound.exists_items coupled hdone hnode hpaired
  have partners := coupled entry node exit hnode hpaired
  have shape := (sound.shaped hnode (sound.inner_of_done hdone partners.outer hnode)).2
  rw [hshape] at shape
  obtain ⟨hmem, hitem⟩ := mem_filter.mp hport
  obtain ⟨socket, hsocket, fits⟩ := forall₂_exists_left shape.inputs hmem
  rw [fits.name, fits.type]
  rcases mem_append.mp hsocket with hbase | hitems
  · rw [fits.zoneItem, kind.entry_plain.1 socket hbase] at hitem
    cases hitem
  · obtain ⟨item, hmem, rfl⟩ := mem_map.mp hitems
    exact named item hmem

/-- An item of the decompiled program has the name that the title of an item gives. -/
theorem exists_item_of_decompile {catalog : Catalog} {decompiled : Program} {name : String}
    (h : draft.graph.decompile catalog = .ok decompiled) (hname : name ∈ decompiled.itemNames) :
    ∃ item, rules.item item ∧ name = snakeCase (titleCase item) := by
  obtain ⟨found, ids, names, hfound, _, hneeded, _, stated⟩ := sound.exists_stated coupled catalog
  cases h.symm.trans hfound
  obtain ⟨statement, hpart, hitem⟩ := mem_flatMap.mp hname
  obtain ⟨id, hid, states⟩ := forall₂_exists_left stated hpart
  cases states with
  | call => cases hitem
  | @zone entry node _ _ _ opens hnode =>
    obtain ⟨_, hfound, _, hpaired⟩ := opens.found
    cases hnode.symm.trans hfound
    have hexit := (sound.mem_order_iff_needed coupled).mpr ((hneeded id).mp hid)
    have hdone := ((coupled entry node id hnode hpaired).first (sound.shown_of_mem_order coupled hexit).1).1
    obtain ⟨_, hparameter, rfl⟩ := mem_map.mp hitem
    obtain ⟨port, hport, rfl⟩ := mem_map.mp hparameter
    obtain ⟨item, hrule, htitle, _⟩ := sound.exists_item coupled hdone hnode hpaired hport
    exact ⟨item, hrule, congrArg snakeCase htitle⟩

/-- All statements of the decompiled program can be written. -/
theorem allPrintable_nest (legible : rules.Legible)
    (hinputs : ∀ entry ∈ draft.graph.interface.inputs, isIdentifier (snakeCase entry.name) = true)
    (holds : draft.graph.Holds (Allowance.finite program)) (catalog : Catalog) : Statement.allPrintable
      ((draft.refs catalog).statements (Piece.nest draft.graph.spans draft.order)) = true := by
  have refs := sound.legible_refs coupled legible hinputs catalog
  have hlegible : ∀ id ∈ draft.order, ∀ node, draft.graph.node? id = some node → node.Legible := by
    intro id hid node hnode
    obtain ⟨hdone, hsource, found, hfound, shown⟩ := sound.shown_of_mem_order coupled hid
    rw [hnode] at hfound
    cases hfound
    exact sound.legible_of_done coupled legible hdone hsource hnode (holds id node hnode) shown
  refine allPrintable_statements (Piece.nest_induction ?_ ?_)
  · intro id hid _ statement hstatement
    rw [statement?] at hstatement
    exact refs.callStatement? (sound.isIdentifier_target coupled hid catalog) (hlegible id hid) hstatement
  · intro span hspan hexit body hbody statement hstatement
    rw [statement?] at hstatement
    refine refs.zoneStatement? (sound.isIdentifier_target coupled hexit catalog) ?_ (hlegible span.exit hexit)
      (allPrintable_statements hbody) hstatement
    intro entry hentry
    obtain ⟨_, ⟨node, hnode, _, hpaired⟩, _⟩ := sound.mem_spans.mp hspan
    have hsame : node = entry := Option.some.inj (hnode.symm.trans hentry)
    subst hsame
    have partners := coupled span.entry node span.exit hnode hpaired
    have hdone := (partners.first (sound.shown_of_mem_order coupled hexit).1).1
    refine ⟨sound.legible_of_done coupled legible hdone partners.outer hnode (holds _ node hnode)
      (.inr (by rw [hpaired]; rfl)), fun port hport => ?_⟩
    exact (sound.exists_item coupled hdone hnode hpaired hport).choose_spec.2.2

/-- The graph of a draft decompiles to a program that can be printed. -/
theorem exists_printable (legible : rules.Legible)
    (hname : isIdentifier (snakeCase draft.graph.name) = true)
    (hinputs : ∀ entry ∈ draft.graph.interface.inputs, (Decompilation.parameter entry).printable = true)
    (houtputs : ∀ entry ∈ draft.graph.interface.outputs, entry.default = none)
    (holds : draft.graph.Holds (Allowance.finite program)) (catalog : Catalog) :
    ∃ decompiled, draft.graph.decompile catalog = .ok decompiled ∧ decompiled.printable = true := by
  obtain ⟨sink, hsink, hgraph⟩ := sound.ofGraph_eq catalog
  have hnames : ∀ entry ∈ draft.graph.interface.inputs, isIdentifier (snakeCase entry.name) = true := by
    intro entry hentry
    have hprintable := hinputs entry hentry
    simp only [Parameter.printable, Decompilation.parameter, Bool.and_eq_true] at hprintable
    exact hprintable.1.1
  have hstatements := sound.allPrintable_nest coupled legible hnames holds catalog
  unfold Graph.decompile
  rw [hgraph]
  refine ⟨_, rfl, ?_⟩
  have hparams : (draft.graph.interface.inputs.map Decompilation.parameter).all Parameter.printable = true := by
    rw [all_map]
    exact all_eq_true.mpr hinputs
  have hreturns : (sink.enabledInputs.filterMap fun port => ((draft.refs catalog).portValue? port false).map
      fun value => (port.name, value)).all (fun entry => entry.2.printable) = true := by
    refine all_eq_true.mpr fun entry hentry => ?_
    obtain ⟨port, hport, hsome⟩ := mem_filterMap.mp hentry
    obtain ⟨value, hvalue, rfl⟩ := Option.map_eq_some_iff.mp hsome
    refine (sound.legible_refs coupled legible hnames catalog).portValue? (fun default hdefault => ?_) hvalue
    obtain ⟨_, _, node, hnode, _, _, hsockets⟩ := sound.sink
    rw [hsink] at hnode
    cases hnode
    have hsocket := mem_map_of_mem (f := Port.toSocket) (mem_of_mem_filter hport)
    rw [hsockets] at hsocket
    obtain ⟨result, hresult, heq⟩ := mem_map.mp hsocket
    have hnone : port.default = none := (congrArg Socket.default heq.symm).trans (houtputs result hresult)
    rw [hnone] at hdefault
    cases hdefault
  unfold Program.printable
  rw [Bool.and_eq_true, Bool.and_eq_true, Bool.and_eq_true]
  exact ⟨⟨⟨hname, hparams⟩, hstatements⟩, hreturns⟩

end Sound

end Draft

/-! ## Programs -/

namespace Script.Program

open Build

/-- If the parameters of an accepted signature come back under different names, and neither a
parameter nor an item under a category with a number, then no statement of the decompiled program is
mixed up with another, with a parameter or with an item. -/
theorem distinct_decompile (s : Supply) {program : Program} {params : List ResolvedParam}
    (hinputs : program.inputs (Session.standard s) = .ok params)
    (hparams : (program.paramNames.map fun name => snakeCase (titleCase name)).Nodup)
    (hplain : ∀ name ∈ program.paramNames ++ program.itemNames, ∀ category n,
      snakeCase (titleCase name) ≠ Category.numbered category n) (b : Build) :
    ∃ graph decompiled, (exec (program.build (Session.standard s)) b).2.store.get? program.name = some graph ∧
      graph.decompile (Session.standard s).catalog = .ok decompiled ∧ decompiled.paramNames.Nodup ∧
      decompiled.targets.Nodup ∧ ∀ target ∈ decompiled.targets,
        target ∉ decompiled.paramNames ∧ target ∉ decompiled.itemNames := by
  obtain ⟨graph, decompiled, hget, hdecompiled, _, hnames⟩ := titles_build s hinputs b
  obtain ⟨found, _, _, hfound, built, _⟩ := built_build s hinputs b
  cases hget.symm.trans hfound
  obtain ⟨draft, rfl, sound, _, coupled⟩ := built.drafted
  obtain ⟨hnodup, hnumbered, _⟩ := Graph.decompile_names hdecompiled
  refine ⟨_, decompiled, hget, hdecompiled, hnames ▸ hparams, hnodup, fun target htarget => ?_⟩
  obtain ⟨category, n, rfl⟩ := hnumbered target htarget
  refine ⟨fun hparam => ?_, fun hitem => ?_⟩
  · rw [hnames] at hparam
    obtain ⟨name, hname, heq⟩ := mem_map.mp hparam
    exact hplain name (mem_append_left _ hname) category n heq
  · obtain ⟨name, hname, heq⟩ := sound.exists_item_of_decompile coupled hdecompiled hitem
    exact hplain name (mem_append_right _ hname) category n heq.symm

/-- The names that a script gives come back as identifiers, and so do the names on the interfaces of
other graphs that it calls. -/
structure Legible (program : Program) (store : Store) : Prop where
  name : isIdentifier (snakeCase (store.getD program.name).name) = true
  params : ∀ name ∈ program.paramNames, isIdentifier (snakeCase (titleCase name)) = true
  items : ∀ name ∈ program.itemNames, isIdentifier (snakeCase (titleCase name)) = true
  references : ∀ target function args, Statement.call target function args ∈ program.parts →
    function ∉ Catalog.functionNames → ∀ text, (graphProperty, Value.literal (.text text)) ∈ args →
      isIdentifier (snakeCase text) = true
  callees : ∀ name graph, name ≠ program.name → program.CallsGraph (snakeCase name) → store.get? name = some graph →
    graph.interface.Legible

variable {program : Program} {s : Supply} {b : Build} {params : List ResolvedParam} {inputs : List Entry}

/-- The inputs of the graph can be written as parameters. -/
theorem printable_inputs (finite : program.Finite)
    (legible : ∀ name ∈ program.paramNames, isIdentifier (snakeCase (titleCase name)) = true)
    (hinputs : program.inputs (Session.standard s) = .ok params)
    (hdeclared : inputs.map Entry.toDeclaration = params.map ResolvedParam.declaration) :
    ∀ entry ∈ inputs, (Decompilation.parameter entry).printable = true := by
  intro entry hentry
  have hmem : entry.toDeclaration ∈ params.map ResolvedParam.declaration := hdeclared ▸ mem_map_of_mem hentry
  obtain ⟨param, hparam, heq⟩ := mem_map.mp hmem
  obtain ⟨⟨typeName, htype⟩, hdefaults⟩ := declared_inputs hinputs hparam
  rw [heq] at htype hdefaults
  have hname : isIdentifier (snakeCase entry.name) = true := by
    have htitle : param.declaration.name ∈ program.paramNames.map titleCase := by
      rw [← (inputs_eq_ok hinputs).1]
      exact mem_map_of_mem hparam
    obtain ⟨name, hparamName, hsame⟩ := mem_map.mp htitle
    rw [heq] at hsame
    rw [← hsame]
    exact legible name hparamName
  have htypeName := SocketType.isIdentifier_typeName _ (SocketClasses.mem_standard_of_resolve? htype)
  simp only [Parameter.printable, Decompilation.parameter, hname, htypeName, Bool.and_self, Bool.true_and]
  cases hdefault : entry.default with
  | none => rfl
  | some value =>
    obtain ⟨given, hcoerce, hwritten⟩ := hdefaults value hdefault
    obtain ⟨parameter, hparameter, hgiven⟩ := mem_map.mp hwritten
    have hvalue : Value.literal given ∈ program.values :=
      mem_append_left _ (mem_append_left _ (mem_filterMap.mpr ⟨parameter, hparameter, hgiven⟩))
    have hfinite := SocketType.finite_coerce? (finite.value hvalue given (mem_singleton_self _)) hcoerce
    simpa [Value.printable] using hfinite

/-- What a script that was read can make of its names can be written. -/
theorem legible_rulesOf (spelled : program.Spelled) (legible : program.Legible b.store)
    (hinputs : ∀ entry ∈ inputs, (Decompilation.parameter entry).printable = true) :
    (rulesOf (b.store.set program.name (b.prepared program.name inputs)) program).Legible where
  callee := by
    rintro function args name interface ⟨statement, hpart, hcalls⟩ hcallee
    have hcalled : ∃ target args, Statement.call target function args ∈ program.parts := by
      cases statement with
      | call target called given => exact ⟨target, given, hcalls.1 ▸ hpart⟩
      | zone => exact hcalls.elim
    dsimp only [rulesOf] at hcallee
    split at hcallee
    · cases hcallee
    · next hfunction =>
        split at hcallee
        · cases hcallee
        · next found hfind =>
            obtain ⟨target, htarget, heq⟩ := Option.map_eq_some_iff.mp hcallee
            cases heq
            have hname : snakeCase found.name = function := by simpa using find?_some hfind
            refine ⟨hname, ?_⟩
            change (b.store.graphs.insert program.name _).get? found.name = some target at htarget
            rw [OrderedMap.get?_insert] at htarget
            split at htarget
            · cases htarget
              refine ⟨fun entry hentry => ?_, fun _ h => absurd h not_mem_nil, fun entry hentry value hvalue => ?_⟩
              · have hprintable := hinputs entry hentry
                simp only [Parameter.printable, Decompilation.parameter, Bool.and_eq_true] at hprintable
                exact hprintable.1.1
              · rw [show (b.prepared program.name inputs).interface = { inputs } from rfl, append_nil] at hentry
                have hprintable := hinputs entry hentry
                simp only [Parameter.printable, Decompilation.parameter, hvalue, Bool.and_eq_true] at hprintable
                simpa [Value.printable] using hprintable.2
            · next hne =>
                exact legible.callees found.name target hne ⟨hname.symm ▸ hfunction, hname.symm ▸ hcalled⟩ htarget
  item name hname := legible.items name hname
  call := by
    rintro function args ⟨statement, hpart, hcalls⟩
    cases statement with
    | call target called given => exact hcalls.1 ▸ (spelled.statements _ hpart).2.1
    | zone => exact hcalls.elim
  refers := by
    rintro function text hcallee ⟨target, args, hpart, htext⟩
    refine legible.references target function args hpart (fun hfunction => ?_) text htext
    dsimp only [rulesOf] at hcallee
    rw [if_pos hfunction] at hcallee
    cases hcallee
  selected := by
    rintro output ⟨base, hleaf⟩
    exact spelled.isIdentifier_output hleaf

/-- A text is read as a program if the reader of programs takes it and leaves nothing but blanks. -/
theorem parse_of_takes {text : String} {rest : List Char}
    (h : Takes (Script.program (text.toList.length + 1)) text.toList program rest) (hrest : skipBlank rest = []) :
    parse text = .ok program := by
  unfold parse
  simp only [show Script.program (text.toList.length + 1) text.toList = .ok (program, rest) from h, hrest]

theorem takes_render (printable : program.printable = true) :
    Takes (Script.program (program.render.toList.length + 1)) program.render.toList program ['\n'] :=
  program_takes printable (Nat.lt_succ_self _)

/-- A script with finite literals whose signature is faulty changes nothing. Otherwise the graph it
leaves behind, whether the build succeeds or not, decompiles to a program whose text is read as that
program again, if the names that come back from display names are identifiers. -/
theorem parse_render_decompile (s : Supply) (text : String) (program : Program) (b : Build)
    (hparse : parse text = .ok program) (finite : program.Finite) (legible : program.Legible b.store) :
    (∃ e, program.inputs (Session.standard s) = .error e ∧
      exec (program.build (Session.standard s)) b = (.error e, b)) ∨
      ∃ graph decompiled, (exec (program.build (Session.standard s)) b).2.store.get? program.name = some graph ∧
        graph.decompile (Session.standard s).catalog = .ok decompiled ∧
          parse decompiled.render = .ok decompiled := by
  cases hinputs : program.inputs (Session.standard s) with
  | error e => exact .inl ⟨e, rfl, exec_build_error hinputs b⟩
  | ok params =>
    have standard := Session.isStandard_standard s
    obtain ⟨graph, inputs, hget, built, hdeclared⟩ := built_build_prepared s hinputs b
    obtain ⟨found, hfound, hname, holds, _⟩ := (Allowance.lawful_finite program).holds_build standard
      (covers_finite standard finite) hinputs fun name callee hne hcalled hcallee =>
        (legible.callees name callee hne hcalled hcallee).finite
    have hsame : found = graph := Option.some.inj (hfound.symm.trans hget)
    subst hsame
    obtain ⟨draft, rfl, sound, _, coupled⟩ := built.drafted
    have hentries := printable_inputs finite legible.params hinputs hdeclared
    obtain ⟨decompiled, hdecompiled, printable⟩ := sound.exists_printable coupled
      (legible_rulesOf (spelled_of_parse hparse) legible hentries) (hname ▸ legible.name)
      (built.inputs ▸ hentries) built.outputs holds (Session.standard s).catalog
    refine .inr ⟨draft.graph, decompiled, hget, hdecompiled, ?_⟩
    refine parse_of_takes (takes_render printable) ?_
    rw [skipBlank_newline, skipBlank_nil]

/-- A repetition inside a simulation that adds up one output of a node with several. -/
def drift : Program where
  name := "Slow Drift"
  params := [⟨"start_value", "Float", some (.literal (.float .zero))⟩]
  statements := [.call "axes" "separate_xyz" [("vector", .literal (.vector .zero .zero .zero))],
    .zone "total" .simulation [⟨"sum", "Float", none⟩] [("sum", .name "start_value")]
      [.zone "turns" .repetition [⟨"turn", "Float", none⟩] [("iterations", .literal (.int 3)), ("turn", .name "sum")]
        [.call "next" "math" [("value", .list [.name "turn", .select "axes" "z"])]] [.name "next"]]
      [.name "turns"]]
  returns := [("Total", .name "total")]

theorem parse_render_decompile_drift :
    parse drift.render = .ok drift ∧ drift.Finite ∧ drift.Legible .empty ∧ ∃ graph decompiled,
      (exec (drift.build (Session.standard {})) { store := .empty, supply := {} }).2.store.get?
        drift.name = some graph ∧
        graph.decompile (Session.standard {}).catalog = .ok decompiled ∧
          parse decompiled.render = .ok decompiled := by
  have hparse : parse drift.render = .ok drift := by
    refine parse_of_takes (takes_render (by decide +kernel)) ?_
    rw [skipBlank_newline, skipBlank_nil]
  have finite : drift.Finite := by
    have hall : drift.leaves.all (fun leaf => leaf.literal?.all finiteLiteral) = true := by decide +kernel
    exact fun literal hleaf => all_eq_true.mp hall _ hleaf
  have legible : drift.Legible .empty := by
    refine ⟨by decide +kernel, by decide +kernel, by decide +kernel, ?_, fun _ _ _ _ h => by cases h⟩
    intro target function args hpart _ text htext
    simp only [drift, parts, Statement.partsIn, Statement.parts, cons_append, nil_append, mem_cons,
      Statement.call.injEq, reduceCtorEq, false_or, not_mem_nil, or_false] at hpart
    rcases hpart with ⟨_, _, rfl⟩ | ⟨_, _, rfl⟩ <;> simp [graphProperty] at htext
  refine ⟨hparse, finite, legible, ?_⟩
  rcases parse_render_decompile {} drift.render drift { store := .empty, supply := {} } hparse finite legible with
    ⟨e, herror, _⟩ | h
  · have hok : ∀ catalog, (drift.inputs (.ofCatalog catalog)).isOk = true := by
      intro catalog
      cbv
    have hstandard := hok (Catalog.standard {}).1
    rw [← Session.standard, herror] at hstandard
    cases hstandard
  · exact h

/-- A script for a graph whose name starts with a digit. -/
def numeralText : String :=
  "from geometry_script import *\n\n@tree(\"1abc\")\ndef main(p: Float):\n    return \x7b \"R\": p \x7d\n"

def numeral : Program where
  name := "1abc"
  params := [⟨"p", "Float", none⟩]
  statements := []
  returns := [("R", .name "p")]

/-- The name comes back as that of the function, which no script can have. -/
theorem not_parse_render_decompile_numeral :
    parse numeralText = .ok numeral ∧ numeral.Finite ∧
      (exec (numeral.build (Session.standard {})) { store := .empty, supply := {} }).1 = .ok () ∧ ∃ graph decompiled,
        (exec (numeral.build (Session.standard {})) { store := .empty, supply := {} }).2.store.get? "1abc" =
          some graph ∧
          graph.decompile (Session.standard {}).catalog = .ok decompiled ∧
            ∀ other, parse decompiled.render ≠ .ok other := by
  have hparse : parse numeralText = .ok numeral := by cbv
  have finite : numeral.Finite := by
    have hall : numeral.leaves.all (fun leaf => leaf.literal?.all finiteLiteral) = true := by decide +kernel
    exact fun literal hleaf => all_eq_true.mp hall _ hleaf
  have hrun : decompilesTo "1abc" (Session.standard {}).catalog (fun decompiled => !(parse decompiled.render).isOk)
      (exec (numeral.build (Session.standard {})) { store := .empty, supply := {} }) = true := by
    decide +kernel
  obtain ⟨hbuilt, graph, decompiled, hgraph, hdecompiled, hfault⟩ := exists_of_decompilesTo hrun
  refine ⟨hparse, finite, hbuilt, graph, decompiled, hgraph, hdecompiled, fun other hother => ?_⟩
  rw [hother] at hfault
  cases hfault

end Script.Program

end NodeScript
