import NodeScript.Proofs.Build.ZoneEnds

/-!
# Zones as constructions

A zone adds its two ends, binds the initial state, completes the entry, runs the step inside and
binds the next state, which completes the exit.
-/

namespace NodeScript

open Build Draft List

variable {ports : List Port} {pairs : List (String × Port)} {socket : String × SocketType → Socket} {α : Type}

/-! ## Values of a zone -/

variable {items : List Param} {resolved : List (String × SocketType)} {chosen : String → Option String}

/-- Outputs with the names under which they are bound, where a later one takes the place of an
earlier one. -/
def bindNames (graph : String) (id : NodeId) (wrap : Expr → α) (pairs : List (String × Port))
    (named : OrderedMap String α) : OrderedMap String α :=
  pairs.foldl (fun named pair => named.insert pair.1 (wrap (pair.2.value graph id))) named

/-- The output that a name is bound to is the last one of its socket's name, if names tell the
sockets apart. -/
theorem lastNamed_of_find {node : Node} (houtputs : pairs.map Prod.snd = node.outputs)
    (hkeys : ∀ a ∈ pairs, ∀ b ∈ pairs, snakeCase a.2.name = snakeCase b.2.name → a.1 = b.1) {key : String}
    {pair : String × Port} (h : (pairs.reverse.find? fun pair => pair.1 = key) = some pair) :
    node.LastNamed pair.2 := by
  have hmem : pair ∈ pairs := mem_reverse.mp (mem_of_find?_eq_some h)
  rw [find?_eq_some_iff_append] at h
  obtain ⟨hkey, before, after, hsplit, hbefore⟩ := h
  unfold Node.LastNamed
  rw [← houtputs, ← map_reverse, hsplit, map_append, map_cons]
  refine find?_eq_some_iff_append.mpr ⟨by simp, _, _, rfl, fun port hport => ?_⟩
  obtain ⟨other, hother, rfl⟩ := mem_map.mp hport
  have hin : other ∈ pairs := mem_reverse.mp (hsplit ▸ mem_append_left _ hother)
  have hne := hbefore other hother
  simp only [Bool.not_eq_eq_eq_not, Bool.not_true, decide_eq_false_iff_not, decide_eq_true_eq] at hne hkey ⊢
  exact fun heq => hne ((hkeys other hin pair hmem heq).trans hkey)

/-! ## Ports of items -/

theorem resolveItems_eq_ok {classes : SocketClasses} (h : resolveItems classes items = .ok resolved) :
    Forall₂ (fun item found => found.1 = titleCase item.name ∧ classes.resolve? item.typeName = some found.2)
      items resolved := by
  induction items generalizing resolved with
  | nil =>
    cases h
    exact .nil
  | cons item rest ih =>
    unfold resolveItems at h
    cases htype : classes.resolve? item.typeName with
    | none =>
      rw [htype] at h
      cases h
    | some type =>
      rw [htype] at h
      obtain ⟨others, hothers, h⟩ := Except.bind_eq_ok.mp h
      cases h
      exact .cons ⟨rfl, htype⟩ (ih hothers)

/-- The ports of items stand behind the others. -/
theorem exists_itemPorts {sockets : List Socket}
    (h : Forall₂ (Port.Fits chosen) (sockets ++ resolved.map socket) ports)
    (plain : ∀ socket ∈ sockets, socket.zoneItem = false)
    (items : ∀ item, (socket item).zoneItem = true) :
    ∃ base own, ports = base ++ own ∧ Forall₂ (Port.Fits chosen) sockets base ∧
      Forall₂ (Port.Fits chosen) (resolved.map socket) own ∧ (ports.filter fun port => port.zoneItem) = own ∧
      ∀ port ∈ base, port.zoneItem = false := by
  have hbase := (forall₂_take_append _ _ _ h.flip).flip
  have hown := (forall₂_drop_append _ _ _ h.flip).flip
  have hplain : ∀ port ∈ ports.take sockets.length, port.zoneItem = false := by
    intro port hport
    obtain ⟨socket, hsocket, fits⟩ := forall₂_exists_left hbase hport
    rw [fits.zoneItem]
    exact plain socket hsocket
  have hitems : ∀ port ∈ ports.drop sockets.length, port.zoneItem = true := by
    intro port hport
    obtain ⟨_, hsocket, fits⟩ := forall₂_exists_left hown hport
    obtain ⟨item, _, rfl⟩ := mem_map.mp hsocket
    rw [fits.zoneItem]
    exact items item
  refine ⟨_, _, (take_append_drop sockets.length ports).symm, hbase, hown, ?_, hplain⟩
  conv_lhs => rw [← take_append_drop sockets.length ports]
  rw [filter_append, filter_eq_nil_iff.mpr fun port hport => by simp [hplain port hport],
    filter_eq_self.mpr hitems, nil_append]

namespace Script.ZoneKind

theorem entry_plain (kind : ZoneKind) :
    (∀ socket ∈ kind.entrySpec.inputs, socket.zoneItem = false) ∧
      ∀ socket ∈ kind.entrySpec.outputs, socket.zoneItem = false := by
  cases kind <;> decide

theorem exit_plain (kind : ZoneKind) :
    (∀ socket ∈ kind.exitSpec.inputs, socket.zoneItem = false) ∧ kind.exitSpec.outputs = [] := by
  cases kind <;> decide

/-- What an entry shows apart from its items is the time step. -/
theorem entry_outputs (kind : ZoneKind) : ∀ socket ∈ kind.entrySpec.outputs,
    socket.enabledWhen = none ∧ socket.enabled = true ∧ snakeCase socket.name = deltaTime := by
  cases kind <;> decide +kernel

end Script.ZoneKind

/-- Ports that fit the sockets of items have their names and types. -/
theorem forall₂_itemPorts {r : Param → String × SocketType → Prop}
    (hsocket : ∀ item, (socket item).name = item.1 ∧ (socket item).type = item.2)
    (hitems : Forall₂ r items resolved) (hports : Forall₂ (Port.Fits chosen) (resolved.map socket) ports) :
    Forall₂ (fun item port => r item (port.name, port.type)) items ports := by
  rw [forall₂_map_left_iff] at hports
  induction hitems generalizing ports with
  | nil =>
    cases hports
    exact .nil
  | cons hitem _ ih =>
    cases hports with
    | cons hport hrest =>
      refine .cons ?_ (ih hrest)
      rwa [hport.name, hport.type, (hsocket _).1, (hsocket _).2]

/-! ## The parts of a zone -/

namespace Build

/-- Bind the initial state of a zone, and note what is not declared. -/
def startZone (session : Session) (entry : NodeId) (items : List Param) (initial : Arguments) : BuildM Unit := do
  let starts ← itemInputs entry
  let unused ← bindInitial session entry (items.zip starts) initial
  unused.keys.forM fun name => warn (.undeclaredItem name)

/-- Bind the number of iterations of a repetition. -/
def bindIterations (session : Session) (iterations : Operand) (entry : NodeId) : Script.ZoneKind → BuildM Unit
  | .repetition => do
    let port ← inputNamed entry "Iterations"
    bindOperand session iterations entry port
  | .simulation => pure ()

/-- All that is done at the entry of a new zone; gives the values for its step. -/
def enterZone (session : Session) (kind : Script.ZoneKind) (iterations : Operand) (items : List Param)
    (initial : Arguments) (entry : NodeId) : BuildM Inputs := do
  bindIterations session iterations entry kind
  startZone session entry items initial
  let time ← timeInput entry
  let states ← itemOutputs entry
  stateInputs entry (items.zip states) time

end Build

/-- Each input of an item at the exit has what was given at its place. -/
def Graph.Continues (graph : Graph) (exit : Node) (next : List Operand) : Prop :=
  ∀ (place : Nat) port, (exit.inputs.filter fun port => port.zoneItem)[place]? = some port →
    graph.Gets exit.id port next[place]?

/-! ## Reading the ends of a zone -/

/-- Ports of items with the names that the items are bound to. -/
def itemPairs (key : Param → String) (items : List Param) (ports : List Port) : List (String × Port) :=
  (items.zip ports).map fun pair => (key pair.1, pair.2)

namespace Site

variable {site : Site} {draft draft' : Draft} {path : List NodeId} {id : NodeId} {node : Node} {source : Expr}
  {port : Port}

section Exec

variable {b : Build} {graph : Graph} {id : NodeId} {node : Node}

theorem exec_itemInputs (hb : b.current? = some graph) (hnode : graph.node? id = some node) :
    exec (itemInputs id) b = (.ok ((node.inputs.filter fun port => port.zoneItem).map Port.id), b) := by
  unfold itemInputs
  rw [exec_bind_ok (exec_node_of hb hnode)]
  rfl

theorem exec_itemOutputs (hb : b.current? = some graph) (hnode : graph.node? id = some node) :
    exec (itemOutputs id) b = (.ok ((node.outputs.filter fun port => port.zoneItem).map Port.id), b) := by
  unfold itemOutputs
  rw [exec_bind_ok (exec_node_of hb hnode)]
  rfl

variable (hscope : b.scopes.head? = some site.name) (hb : b.current? = some graph)
  (hnode : graph.node? id = some node) (distinct : (node.ports.map Port.id).Nodup)

include hscope hb hnode distinct

/-- A loop over the ports of items that binds them to names. -/
theorem exec_bindNames {γ : Type} {wrap : Expr → γ} {key : Param → String}
    {loop : List (Param × PortId) → OrderedMap String γ → BuildM (OrderedMap String γ)}
    (hnil : ∀ named, loop [] named = pure named)
    (hcons : ∀ item port rest named, loop ((item, port) :: rest) named =
      expr id port >>= fun source => loop rest (named.insert (key item) (wrap source)))
    (items : List Param) (hports : ports ⊆ node.ports) (named : OrderedMap String γ) :
    exec (loop (items.zip (ports.map Port.id)) named) b =
      (.ok (bindNames site.name id wrap (itemPairs key items ports) named), b) := by
  induction items generalizing ports named with
  | nil =>
    rw [zip_nil_left, hnil]
    rfl
  | cons item rest ih =>
    cases ports with
    | nil =>
      rw [map_nil, zip_nil_right, hnil]
      rfl
    | cons port ports =>
      have hport : node.port? port.id = some port := Node.port?_of_mem distinct (hports mem_cons_self)
      rw [map_cons, zip_cons_cons, hcons, exec_bind_ok (exec_expr hscope hb hnode hport)]
      exact ih (fun p hp => hports (.tail _ hp)) _

/-- The time step is there where the entry has an output for it. -/
theorem exec_timeInput {kind : Script.ZoneKind} {base own : List Port}
    (houtputs : node.outputs = base ++ own) (hbase : Forall₂ (Port.Fits chosen) kind.entrySpec.outputs base)
    (hown : ∀ port ∈ own, port.zoneItem = true) :
    exec (timeInput id) b =
      (.ok (bindNames site.name id Input.value (base.map fun port => (Script.deltaTime, port)) ∅), b) := by
  have hnone : own.find? (fun port => !port.zoneItem && port.name = deltaTimeOutput) = none :=
    find?_eq_none.mpr fun port hport => by simp [hown port hport]
  unfold timeInput
  rw [exec_bind_ok (exec_node_of hb hnode), houtputs, find?_append, hnone, Option.or_none]
  cases kind with
  | repetition =>
    rw [forall₂_nil_left_iff.mp hbase]
    rfl
  | simulation =>
    obtain ⟨port, rest, hfits, hrest, rfl⟩ := forall₂_cons_left_iff.mp hbase
    rw [forall₂_nil_left_iff.mp hrest] at houtputs ⊢
    have hfound : [port].find? (fun port => !port.zoneItem && port.name = deltaTimeOutput) = some port := by
      rw [find?_cons, hfits.zoneItem, hfits.name]
      rfl
    have hmem : port ∈ node.ports := mem_append_right _ (houtputs ▸ mem_append_left _ (by simp))
    rw [hfound]
    dsimp only
    rw [exec_bind_ok (exec_expr hscope hb hnode (Node.port?_of_mem distinct hmem))]
    rfl

end Exec

/-- What a zone gives. -/
def zoneResult (graph : String) (id : NodeId) (items : List Param) : List Port → CallResult
  | [port] => .single (port.value graph id)
  | ports => .named
      (bindNames graph id (fun source => source) (itemPairs (fun item => snakeCase item.name) items ports) ∅)

/-- A name is bound to the last output that was given it. -/
theorem get?_bindNames (graph : String) (id : NodeId) (wrap : Expr → α) (pairs : List (String × Port))
    (key : String) : (bindNames graph id wrap pairs ∅).get? key =
      (pairs.reverse.find? fun pair => pair.1 = key).map fun pair => wrap (pair.2.value graph id) := by
  rw [bindNames, OrderedMap.get?_foldl_insert]
  simp

theorem exists_bound {graph : String}
    (h : source ∈ (bindNames graph id (fun source => source) pairs ∅).values) : ∃ key pair,
      (pairs.reverse.find? fun pair => pair.1 = key) = some pair ∧ source = pair.2.value graph id := by
  obtain ⟨key, hget⟩ := OrderedMap.mem_values_iff.mp h
  rw [get?_bindNames, Option.map_eq_some_iff] at hget
  obtain ⟨pair, hfind, hsource⟩ := hget
  exact ⟨key, pair, hfind, hsource.symm⟩

theorem mem_zoneResult_exprs {graph : String}
    (hlength : items.length = ports.length) (h : source ∈ (zoneResult graph id items ports).exprs) :
    ∃ key pair, ((itemPairs (fun item => snakeCase item.name) items ports).reverse.find? fun pair =>
      pair.1 = key) = some pair ∧ source = pair.2.value graph id := by
  match ports with
  | [] => exact exists_bound h
  | [port] =>
    obtain ⟨item, rfl⟩ := length_eq_one_iff.mp hlength
    refine ⟨snakeCase item.name, (snakeCase item.name, port), by simp [itemPairs], ?_⟩
    simpa [zoneResult, CallResult.exprs] using h
  | first :: second :: rest => exact exists_bound h

/-! ## Outputs that can be referred to -/

section Referable

variable {rules : Rules} {kind : Script.ZoneKind} {node : Node} {items : List Param}
  {resolved : List (String × SocketType)} {key : String} {pair : String × Port} {chosen : String → Option String}
  {sockets : List Socket} {base own : List Port}

theorem map_snd_itemPairs {key : Param → String} (h : items.length = ports.length) :
    (itemPairs key items ports).map Prod.snd = ports := by
  rw [itemPairs, map_map]
  exact map_snd_zip (Nat.le_of_eq h.symm)

theorem mem_of_find (houtputs : pairs.map Prod.snd = node.outputs)
    (hfind : (pairs.reverse.find? fun pair => pair.1 = key) = some pair) : pair.2 ∈ node.outputs :=
  houtputs ▸ mem_map_of_mem (mem_reverse.mp (mem_of_find?_eq_some hfind))

/-- Every pair belongs to an item and has its display name. -/
theorem exists_item {key : Param → String}
    (hports : Forall₂ (fun item port => port.name = titleCase item.name) items ports)
    (h : pair ∈ itemPairs key items ports) :
    ∃ item ∈ items, pair.1 = key item ∧ pair.2.name = titleCase item.name := by
  obtain ⟨⟨item, port⟩, hmem, rfl⟩ := mem_map.mp h
  exact ⟨item, (of_mem_zip hmem).1, rfl, forall₂_zip hports hmem⟩

theorem enabled_of_fits (h : Forall₂ (Port.Fits chosen) sockets ports)
    (plain : ∀ socket ∈ sockets, socket.enabledWhen = none ∧ socket.enabled = true) :
    ∀ port ∈ ports, port.enabled = true := by
  intro port hport
  obtain ⟨socket, hsocket, fits⟩ := forall₂_exists_left h hport
  obtain ⟨hwhen, henabled⟩ := plain socket hsocket
  rw [fits.enabled, Socket.enabledUnder, hwhen]
  exact henabled

/-- Inputs of items are always enabled. -/
theorem enabled_item (h : Forall₂ (Port.Fits chosen) (sockets ++ resolved.map itemInput) ports)
    (plain : ∀ socket ∈ sockets, socket.zoneItem = false) (hport : port ∈ ports)
    (hitem : port.zoneItem = true) : port.enabled = true := by
  obtain ⟨socket, hsocket, fits⟩ := forall₂_exists_left h hport
  rcases mem_append.mp hsocket with hplain | hown
  · rw [fits.zoneItem, plain socket hplain] at hitem
    cases hitem
  · obtain ⟨item, _, rfl⟩ := mem_map.mp hown
    exact fits.enabled

/-- The state of a zone as its step sees it: the outputs of the entry by the names of the items. -/
def entryPairs (items : List Param) (base own : List Port) : List (String × Port) :=
  (base.map fun port => (Script.deltaTime, port)) ++ itemPairs Param.name items own

theorem referable_entry (shape : node.Instantiates (kind.entrySpec.withItems resolved))
    (hitems : Forall₂ (fun item found => found.1 = titleCase item.name) items resolved)
    (named : ∀ item ∈ items, rules.item item.name) (houtputs : node.outputs = base ++ own)
    (hbase : Forall₂ (Port.Fits node.chosen) kind.entrySpec.outputs base)
    (hown : Forall₂ (Port.Fits node.chosen) (resolved.map itemOutput) own)
    (hfind : ((entryPairs items base own).reverse.find? fun pair => pair.1 = key) = some pair) :
    node.Referable rules pair.2 := by
  have hnames := forall₂_itemPorts (fun _ => ⟨rfl, rfl⟩) hitems hown
  have hports : (entryPairs items base own).map Prod.snd = node.outputs := by
    rw [houtputs, entryPairs, map_append, map_snd_itemPairs hnames.length_eq, map_map]
    simp [Function.comp_def]
  have hmem := mem_of_find hports hfind
  have henabled : pair.2.enabled = true := by
    refine enabled_of_fits shape.outputs ?_ pair.2 hmem
    intro socket hsocket
    rcases mem_append.mp hsocket with h | h
    · exact ⟨(kind.entry_outputs socket h).1, (kind.entry_outputs socket h).2.1⟩
    · obtain ⟨item, _, rfl⟩ := mem_map.mp h
      exact ⟨rfl, rfl⟩
  have hlast : rules.Faithful → node.LastNamed pair.2 := by
    intro faithful
    -- Every output is bound to its own name in lower case.
    have hkey : ∀ a ∈ entryPairs items base own, a.1 = snakeCase a.2.name := by
      intro a ha
      rcases mem_append.mp ha with htime | hitem
      · obtain ⟨port, hport, rfl⟩ := mem_map.mp htime
        obtain ⟨socket, hsocket, fits⟩ := forall₂_exists_left hbase hport
        rw [fits.name]
        exact (kind.entry_outputs socket hsocket).2.2.symm
      · obtain ⟨item, hin, hfst, hsnd⟩ := exists_item hnames hitem
        rw [hfst, hsnd, faithful item.name (named item hin)]
    refine lastNamed_of_find hports (fun a ha b hb heq => ?_) hfind
    rw [hkey a ha, hkey b hb, heq]
  refine ⟨hmem, henabled, ?_⟩
  rw [shape.role]
  cases kind <;> exact fun _ faithful => hlast faithful

/-- An exit shows the items and nothing else. -/
theorem fits_exit (shape : node.Instantiates (kind.exitSpec.withItems resolved)) :
    Forall₂ (Port.Fits node.chosen) (resolved.map itemOutput) node.outputs := by
  have h := shape.outputs
  change Forall₂ _ (kind.exitSpec.outputs ++ resolved.map itemOutput) _ at h
  rwa [kind.exit_plain.2, nil_append] at h

theorem referable_exit (shape : node.Instantiates (kind.exitSpec.withItems resolved))
    (hitems : Forall₂ (fun item found => found.1 = titleCase item.name) items resolved)
    (named : ∀ item ∈ items, rules.item item.name)
    (hfind : ((itemPairs (fun item => snakeCase item.name) items node.outputs).reverse.find? fun pair =>
      pair.1 = key) = some pair) : node.Referable rules pair.2 := by
  have hshape := fits_exit shape
  have hnames := forall₂_itemPorts (fun _ => ⟨rfl, rfl⟩) hitems hshape
  have hports := @map_snd_itemPairs node.outputs items (fun item => snakeCase item.name) hnames.length_eq
  have hmem := mem_of_find hports hfind
  have henabled : pair.2.enabled = true := by
    refine enabled_of_fits hshape ?_ pair.2 hmem
    intro socket hsocket
    obtain ⟨item, _, rfl⟩ := mem_map.mp hsocket
    exact ⟨rfl, rfl⟩
  have hlast : rules.Faithful → node.LastNamed pair.2 := by
    intro faithful
    refine lastNamed_of_find hports (fun a ha b hb heq => ?_) hfind
    obtain ⟨item, hin, hfst, hsnd⟩ := exists_item hnames ha
    obtain ⟨item', hin', hfst', hsnd'⟩ := exists_item hnames hb
    rw [hsnd, hsnd', faithful _ (named item hin), faithful _ (named item' hin')] at heq
    rw [hfst, hfst', heq]
  refine ⟨hmem, henabled, ?_⟩
  rw [shape.role]
  cases kind <;> exact fun faithful => hlast faithful

end Referable

/-! ## New zones -/

/-- Identities that are not those of a new node stay unused. -/
theorem unused_added (sound : draft.Sound site.rules) {info : Info} {next : Nat} {id : Identity}
    (hold : draft.next ≤ id.code) (hnew : id ∉ node.id :: node.ports.map Port.id) :
    (draft.added node info next).Unused id := by
  have unused := sound.unused hold
  have hne : id ≠ node.id := fun heq => hnew (heq ▸ mem_cons_self)
  refine ⟨(Graph.node?_withNode _ _ _).trans ((if_neg hne).trans unused.node), fun key found hfound hmem => ?_⟩
  change (draft.graph.withNode node).node? key = some found at hfound
  rw [Graph.node?_withNode] at hfound
  split at hfound
  · cases hfound
    exact hnew (.tail _ hmem)
  · exact unused.port key found hfound hmem

/-- A node to which nothing has been bound stays so while others change. -/
theorem Unbound.frame {before : Draft} {touched : NodeId → Prop} {ports : PortId → Prop}
    (h : Unbound before draft id node) (sound : draft.Sound site.rules) (frame : Frame touched ports draft draft')
    (hid : ¬ touched id) (hports : ∀ port ∈ node.inputs, ¬ ports port.id) (undisturbed : Undisturbed before draft') :
    Unbound before draft' id node where
  found := frame.node?_eq h.found hid
  opened := frame.not_done h.found h.opened
  inner := h.inner
  new := h.new
  ports := h.ports
  undisturbed := undisturbed
  free := by
    intro port hport
    have hcode := (sound.codes h.found).2 port (mem_append_left _ hport)
    rw [frame.links port.id hcode (hports port hport)]
    exact h.free port hport
  pristine := by
    rw [frame.later.info id (by rw [h.found]; rfl)]
    exact h.pristine

/-- A zone under construction around the zones of a path. -/
structure ZoneAt (draft : Draft) (path : List NodeId) (kind : Script.ZoneKind)
    (resolved : List (String × SocketType)) (entry exit : Node) : Prop where
  entryInfo : draft.info entry.id = ⟨kind.entrySpec.withItems resolved, path, entry.id :: path⟩
  exitInfo : draft.info exit.id = ⟨kind.exitSpec.withItems resolved, entry.id :: path, path⟩
  paired : entry.pairedOutput = some exit.id
  unpaired : exit.pairedOutput = none
  ne : entry.id ≠ exit.id

section Ends

variable {before : Draft} {kind : Script.ZoneKind} {resolved : List (String × SocketType)} {entry entry' exit : Node}

theorem ZoneAt.later (zone : ZoneAt draft path kind resolved entry exit) (later : Later draft draft')
    (hentry : draft.graph.node? entry.id = some entry) (hexit : draft.graph.node? exit.id = some exit)
    (same : entry.SamePorts entry') : ZoneAt draft' path kind resolved entry' exit where
  entryInfo := by
    rw [same.id, later.info _ (by rw [hentry]; rfl)]
    exact zone.entryInfo
  exitInfo := by
    rw [same.id, later.info _ (by rw [hexit]; rfl)]
    exact zone.exitInfo
  paired := same.pairedOutput.trans zone.paired
  unpaired := zone.unpaired
  ne := same.id ▸ zone.ne

/-- The exit stays as it was while inputs of the entry are bound. -/
theorem Unbound.beside {ports : PortId → Prop} (exitUnbound : Unbound before draft exit.id exit)
    (sound : draft.Sound site.rules) (hentry : draft.graph.node? entry.id = some entry) (ne : entry.id ≠ exit.id)
    (frame : Frame (· = entry.id) ports draft draft') (own : ∀ id, ports id → ∃ port ∈ entry.inputs, port.id = id)
    (undisturbed : Undisturbed before draft') : Unbound before draft' exit.id exit := by
  refine exitUnbound.frame sound frame (fun h => ne h.symm) (fun port hport hbound => ?_) undisturbed
  obtain ⟨input, hmem, hid⟩ := own port.id hbound
  exact ne (sound.owner hentry exitUnbound.found port.id
    (hid ▸ mem_map_of_mem (mem_append_left _ hmem)) (mem_map_of_mem (mem_append_left _ hport)))

end Ends

theorem runs_createZone (sound : draft.Sound site.rules) (standard : site.session.IsStandard)
    (hdepth : path.length + 1 ≤ site.rules.depth) (kind : Script.ZoneKind) (items : List Param) :
    site.Runs (createZone site.session kind items) draft fun ends draft' => ∃ resolved entry exit,
      resolveItems site.session.classes items = .ok resolved ∧ ends = (entry.id, exit.id) ∧
        ZoneAt draft' path kind resolved entry exit ∧ Unbound draft draft' entry.id entry ∧
        Unbound draft draft' exit.id exit := by
  refine Runs.ofWrite sound fun b hb => ?_
  cases hresolved : resolveItems site.session.classes items with
  | error e =>
    refine Or.inl ⟨e, ?_⟩
    unfold createZone
    exact exec_bind_error (by rw [exec_ofExcept, hresolved])
  | ok resolved =>
    obtain ⟨entry, exit, s, ends, hexec⟩ := exec_createZone standard hb.current kind hresolved
    rw [hb.next] at ends
    obtain ⟨entryInfo, hentryInfo⟩ : ∃ info : Info,
      info = ⟨kind.entrySpec.withItems resolved, path, entry.id :: path⟩ := ⟨_, rfl⟩
    obtain ⟨exitInfo, hexitInfo⟩ : ∃ info : Info,
      info = ⟨kind.exitSpec.withItems resolved, entry.id :: path, path⟩ := ⟨_, rfl⟩
    have entryMade : entry.Made entryInfo.shape draft.next s.next := by rw [hentryInfo]; exact ends.entryMade
    have exitMade : exit.Made exitInfo.shape draft.next s.next := by rw [hexitInfo]; exact ends.exitMade
    have entryInner : entry.role.isBoundary = false := by
      rw [ends.entryMade.shape.role]
      cases kind <;> rfl
    have exitInner : exit.role.isBoundary = false := by
      rw [ends.exitMade.shape.role]
      cases kind <;> rfl
    have entryAllowed : Allows site.rules entryInfo := by
      rw [hentryInfo]
      exact ⟨Nat.le_of_succ_le hdepth, hdepth⟩
    have exitAllowed : Allows site.rules exitInfo := by
      rw [hexitInfo]
      exact ⟨hdepth, Nat.le_of_succ_le hdepth⟩
    have entryUnused := unused_made sound entryMade
    have sound₁ := sound.add entryMade entryMade.draws.le entryUnused entryInner entryAllowed
    have exitUnused : ∀ id ∈ exit.id :: exit.ports.map Port.id, (draft.added entry entryInfo s.next).Unused id :=
      fun id hid => unused_added sound (exitMade.draws.range id hid).1 fun hmem => ends.disjoint id hmem hid
    have step : Draft.Step site.rules draft ((draft.added entry entryInfo s.next).added exit exitInfo s.next) :=
      .zone entryMade.draws.le entryMade entryUnused entryInner
        entryAllowed exitMade exitUnused exitInner exitAllowed
        ends.paired ends.unpaired (by rw [hexitInfo])
    have undisturbed :=
      @undisturbed_added site.rules draft entry entryInfo s.next sound entryMade.draws.le entryUnused
    have undisturbed' := @undisturbed_added site.rules _ exit exitInfo s.next sound₁ (Nat.le_refl _) exitUnused
    refine Or.inr ⟨_, s, _, .single step, rfl, hexec, resolved, entry, exit, rfl, rfl, ?_, ?_, ?_⟩
    · refine ⟨?_, ?_, ends.paired, ends.unpaired, ends.ne⟩
      · rw [← hentryInfo]
        exact (Function.update_of_ne ends.ne _ _).trans (Function.update_self _ _ _)
      · rw [← hexitInfo]
        exact Function.update_self _ _ _
    · have unbound := unbound_added sound entryMade entryMade.draws.le entryUnused entryInner
        (.refl draft) (Nat.le_refl _)
      exact unbound.frame sound₁ undisturbed' not_false (fun _ _ => not_false) (undisturbed.trans undisturbed')
    · exact unbound_added sound₁ exitMade (Nat.le_refl _) exitUnused exitInner undisturbed (Nat.le_refl _)

/-! ## The state of a zone -/

section State

variable {id : NodeId}

theorem initialOperand_over {p : Expr → Prop} {name : String} {argument : Argument} {operand : Operand}
    (h : initialOperand name argument = .ok operand) (held : argument.Over p) : operand.Over p := by
  unfold initialOperand at h
  split at h
  next source =>
    cases h
    cases held with
    | expr hsource => exact hsource
  next =>
    split at h
    · cases h
      trivial
    · cases h

theorem runs_bindInitial {pairs : List (Param × PortId)} (nodup : (pairs.map Prod.snd).Nodup)
    (sound : draft.Sound site.rules) (ready : site.Ready draft path id)
    (vacant : ∀ pair ∈ pairs, draft.Vacant id pair.2) {initial : Arguments}
    (valid : ∀ name argument, initial.get? name = some argument → argument.Over (site.Valid draft path)) :
    site.Runs (bindInitial site.session id pairs initial) draft fun _ draft' =>
      Frame (· = id) (· ∈ pairs.map Prod.snd) draft draft' := by
  induction pairs generalizing draft initial with
  | nil => exact Runs.pure (.refl draft)
  | cons pair rest ih =>
    obtain ⟨item, port⟩ := pair
    rw [map_cons, nodup_cons] at nodup
    unfold bindInitial
    cases hget : initial.get? item.name with
    | none =>
      refine (ih nodup.2 sound ready (fun pair hpair => vacant pair (.tail _ hpair)) valid).mono
        fun _ draft' frame => frame.mono fun _ h => mem_cons_of_mem _ h
    | some argument =>
      refine Runs.bindExcept sound fun operand hoperand => ?_
      refine Runs.bind sound (runs_bindOperand sound ready.standard ready.depth (vacant _ mem_cons_self)
        ready.reads (initialOperand_over hoperand (valid _ _ hget))) ?_
      rintro _ draft₁ sound₁ later₁ ⟨frame₁, _⟩
      refine (ih nodup.2 sound₁ (ready.later later₁) (fun pair hpair => ?_) fun name argument hname => ?_).mono
        fun _ draft₂ frame₂ => frame₁.cons frame₂
      · refine (vacant pair (.tail _ hpair)).frame sound frame₁ fun heq => ?_
        exact nodup.1 (heq ▸ mem_map_of_mem hpair)
      · rw [OrderedMap.get?_erase] at hname
        split at hname
        · cases hname
        · exact (valid name argument hname).mono fun _ h => h.later later₁

theorem runs_bindOperands {pairs : List (Operand × PortId)} (nodup : (pairs.map Prod.snd).Nodup)
    (sound : draft.Sound site.rules) (ready : site.Ready draft path id)
    (vacant : ∀ pair ∈ pairs, draft.Vacant id pair.2) (valid : ∀ pair ∈ pairs, pair.1.Over (site.Valid draft path)) :
    site.Runs (pairs.forM fun (value, port) => bindOperand site.session value id port) draft
      fun _ draft' => Frame (· = id) (· ∈ pairs.map Prod.snd) draft draft' ∧
        ∀ pair ∈ pairs, draft'.Fed id pair.2 pair.1 :=
  runs_bindEach Prod.snd (fun fed sound' frame => fed.frame sound' frame) nodup sound ready vacant
    fun pair hpair sound' later ready' vacant' => runs_bindOperand sound' ready'.standard ready'.depth vacant'
      ready'.reads ((valid pair hpair).mono fun _ h => h.later later)

end State

/-! ## Entering and leaving a zone -/

section Zone

variable {before : Draft} {kind : Script.ZoneKind} {items : List Param} {resolved : List (String × SocketType)}
  {entry exit : Node} {node : Node} {initial : Arguments}

theorem nodup_itemPorts (nodup : (node.inputs.map Port.id).Nodup) :
    ((node.inputs.filter fun port => port.zoneItem).map Port.id).Nodup :=
  nodup.sublist (filter_sublist.map _)

theorem exists_itemPort {portId : PortId} (h : portId ∈ (node.inputs.filter fun port => port.zoneItem).map Port.id) :
    ∃ port ∈ node.inputs, port.zoneItem = true ∧ port.id = portId := by
  obtain ⟨port, hport, hid⟩ := mem_map.mp h
  obtain ⟨hmem, hzone⟩ := mem_filter.mp hport
  exact ⟨port, hmem, hzone, hid⟩

/-- A new zone that waits for its initial state. -/
structure Waiting (before draft : Draft) (path : List NodeId) (kind : Script.ZoneKind)
    (resolved : List (String × SocketType)) (entry exit : Node) : Prop where
  zone : ZoneAt draft path kind resolved entry exit
  opened : Opened before draft entry.id entry
  vacant : ∀ port ∈ entry.inputs, port.zoneItem = true → draft.Vacant entry.id port.id
  exit : Unbound before draft exit.id exit

/-- A zone whose entry is complete while nothing has been bound to its exit. -/
structure Entered (before draft : Draft) (path : List NodeId) (kind : Script.ZoneKind)
    (resolved : List (String × SocketType)) (entry exit : Node) : Prop where
  zone : ZoneAt draft path kind resolved entry exit
  found : draft.graph.node? entry.id = some entry
  done : entry.id ∈ draft.done
  inner : entry.role.isBoundary = false
  exit : Unbound before draft exit.id exit

theorem Entered.undisturbed (h : Entered before draft path kind resolved entry exit) (sound : draft.Sound site.rules)
    (undisturbed : Undisturbed draft draft') : Entered before draft' path kind resolved entry exit where
  zone := h.zone.later undisturbed.later h.found h.exit.found ⟨rfl, rfl, rfl, rfl⟩
  found := undisturbed.node?_eq h.found not_false
  done := undisturbed.later.done.subset h.done
  inner := h.inner
  exit := h.exit.frame sound undisturbed not_false (fun _ _ => not_false) (h.exit.undisturbed.trans undisturbed)

section

variable (sound : draft.Sound site.rules) {iterations : Operand} {next : List Operand}
include sound

/-- Warnings do not touch the graph. -/
theorem runs_warnAll (warning : α → Warning) (as : List α) :
    site.Runs (as.forM fun a => warn (warning a)) draft fun _ draft' => draft' = draft ∧ True := by
  refine (@runs_forM site draft _ _ (fun _ draft' => draft' = draft) ?_ as sound rfl).mono fun _ _ h => ⟨h, trivial⟩
  rintro a rest _ _ rfl
  exact (Runs.warn _).mono fun _ _ h => h.1

/-- The number of iterations is the first input of a repetition and belongs to no item. -/
theorem runs_bindIterations (standard : site.session.IsStandard)
    (hdepth : path.length + 1 ≤ site.rules.depth) (zone : ZoneAt draft path kind resolved entry exit)
    (entryUnbound : Unbound before draft entry.id entry) (exitUnbound : Unbound before draft exit.id exit)
    (valid : iterations.Over (site.Valid draft path)) :
    site.Runs (Build.bindIterations site.session iterations entry.id kind) draft fun _ draft' =>
      ∃ entry', entry'.id = entry.id ∧ Waiting before draft' path kind resolved entry' exit := by
  have shape : entry.Instantiates (kind.entrySpec.withItems resolved) := by
    simpa [zone.entryInfo] using entryUnbound.shape sound
  have vacant : ∀ port ∈ entry.inputs, port.zoneItem = true → draft.Vacant entry.id port.id :=
    fun port hport hitem =>
    entryUnbound.vacant (mem_filter.mpr ⟨hport, enabled_item shape.inputs kind.entry_plain.1 hport hitem⟩)
  cases kind with
  | simulation => exact Runs.pure ⟨entry, rfl, zone, entryUnbound.toOpened, vacant, exitUnbound⟩
  | repetition =>
    obtain ⟨counter, own, hcounter, hown, hinputs⟩ := forall₂_cons_left_iff.mp shape.inputs
    have henabled : counter.enabled = true := hcounter.enabled
    have hfind : entry.enabledInputs.find? (fun port => port.name = "Iterations") = some counter := by
      have hname : counter.name = "Iterations" := hcounter.name
      simp [Node.enabledInputs, hinputs, henabled, hname]
    have hread : ∀ b, site.At draft b → exec (inputNamed entry.id "Iterations") b = (.ok counter.id, b) := by
      intro b hb
      unfold inputNamed
      rw [exec_bind_ok (exec_node_of hb.current entryUnbound.found), hfind]
      rfl
    refine Runs.bindValue hread ?_
    have hcounterMem : counter ∈ entry.inputs := hinputs ▸ mem_cons_self
    refine (runs_bindOperand sound standard (Nat.le_of_succ_le hdepth) (entryUnbound.vacant (mem_filter.mpr
      ⟨hcounterMem, henabled⟩)) (by rw [zone.entryInfo]) valid).andLater sound ?_
    rintro _ draft₁ sound₁ later₁ ⟨frame, _⟩
    obtain ⟨entry₁, opened₁, rebound⟩ := entryUnbound.toOpened.frame (frame.mono fun portId hportId => by
      rw [hportId]
      exact entryUnbound.ports counter (mem_append_left _ hcounterMem))
    have hid : entry₁.id = entry.id := rebound.samePorts.id
    refine ⟨entry₁, hid, zone.later later₁ entryUnbound.found exitUnbound.found rebound.samePorts,
      hid.symm ▸ opened₁,
      fun port hport hitem => ?_, exitUnbound.beside sound entryUnbound.found zone.ne frame
        (fun _ heq => ⟨counter, hcounterMem, heq.symm⟩) opened₁.undisturbed⟩
    have shape₁ : entry₁.Instantiates (Script.ZoneKind.repetition.entrySpec.withItems resolved) := by
      have h := opened₁.shape sound₁
      rwa [later₁.info _ (by rw [entryUnbound.found]; rfl), zone.entryInfo] at h
    obtain ⟨socket, _, old, hold, holdId, fits, fits'⟩ :=
      Node.exists_partner shape.inputs shape₁.inputs rebound.samePorts.inputs hport
    have holdItem : old.zoneItem = true := by rw [fits.zoneItem, ← fits'.zoneItem, hitem]
    rw [← holdId, hid]
    refine (vacant old hold holdItem).frame sound frame fun heq => ?_
    rw [Node.eq_of_id_eq (nodup_inputs sound entryUnbound.found) hold hcounterMem heq, hcounter.zoneItem] at holdItem
    cases holdItem

/-- Initial values are bound to the entry, which completes it. -/
theorem runs_startZone (standard : site.session.IsStandard)
    (hdepth : path.length ≤ site.rules.depth) (waiting : Waiting before draft path kind resolved entry exit)
    (named : ∀ item ∈ resolved, ∃ name, site.rules.item name ∧
      item.1 = titleCase name ∧ item.2 ∈ SocketType.standard)
    (valid : ∀ name argument, initial.get? name = some argument → argument.Over (site.Valid draft path)) :
    site.Runs (Build.startZone site.session entry.id items initial) draft fun _ draft' =>
        ∃ entry', entry'.id = entry.id ∧ Entered before draft' path kind resolved entry' exit := by
  obtain ⟨zone, opened, vacant, exitUnbound⟩ := waiting
  have ready : site.Ready draft path entry.id :=
    ⟨standard, hdepth, by rw [zone.entryInfo], by rw [opened.found]; rfl⟩
  have hinitial := map_snd_zip_prefix items ((entry.inputs.filter fun port => port.zoneItem).map Port.id)
  have nodup := (nodup_itemPorts (nodup_inputs sound opened.found)).sublist hinitial.sublist
  refine Runs.bindValue (fun b hb => exec_itemInputs hb.current opened.found) ?_
  refine Runs.bind sound ((runs_bindInitial nodup sound ready (fun pair hpair => ?_) valid).andThen ?_)
    fun unused draft₁ sound₁ _ h => (runs_warnAll sound₁ _ _).mono fun _ _ hsame => hsame.1 ▸ h
  · obtain ⟨port, hmem, hzone, hid⟩ := exists_itemPort (hinitial.subset (mem_map_of_mem hpair))
    exact hid ▸ vacant port hmem hzone
  rintro _ draft₁ steps frame
  have sound₁ := Steps.sound steps sound
  have hown : ∀ portId,
      portId ∈ (items.zip ((entry.inputs.filter fun port => port.zoneItem).map Port.id)).map Prod.snd →
      ∃ port ∈ entry.inputs, port.id = portId := by
    intro portId hportId
    obtain ⟨port, hmem, _, hid⟩ := exists_itemPort (hinitial.subset hportId)
    exact ⟨port, hmem, hid⟩
  obtain ⟨entry₁, opened₁, rebound⟩ := opened.frame (frame.mono fun portId hportId => by
    obtain ⟨port, hmem, hid⟩ := hown portId hportId
    exact hid ▸ opened.ports port (mem_append_left _ hmem))
  have exitUnbound₁ := exitUnbound.beside sound opened.found zone.ne frame hown opened₁.undisturbed
  have hid : entry₁.id = entry.id := rebound.samePorts.id
  have zone₁ := zone.later frame.later opened.found exitUnbound.found rebound.samePorts
  have hentryInfo := zone₁.entryInfo
  have hexitInfo := zone₁.exitInfo
  rw [hid] at hentryInfo hexitInfo
  have complete : draft₁.Complete site.rules entry.id entry₁ :=
    .entry kind resolved exit.id zone₁.paired (by rw [hentryInfo]) (by rw [hexitInfo]) (by rw [hentryInfo])
      (by rw [hexitInfo, hentryInfo]) (by rw [hexitInfo, hentryInfo]) named (by rw [exitUnbound₁.found]; rfl)
  have step : Draft.Step site.rules draft₁ (draft₁.closed entry.id) :=
    .close opened₁.found opened₁.opened opened₁.inner complete
  refine ⟨draft₁.closed entry.id, step, rfl, rfl, entry₁, hid, { zone₁ with }, hid.symm ▸ opened₁.found,
    hid.symm ▸ mem_append_right _ (mem_singleton_self _), opened₁.inner, ?_⟩
  have undisturbed := opened₁.undisturbed.close opened.new (step.later sound₁)
  refine { exitUnbound₁ with undisturbed := undisturbed, opened := fun hdone => ?_ }
  rcases mem_append.mp hdone with hold | hlast
  · exact exitUnbound₁.opened hold
  · exact zone.ne (mem_singleton.mp hlast).symm

/-- The step of a zone gets the outputs of the entry by the names of the items. -/
def StateOf (graph : String) (items : List Param) (entry : Node) (inputs : Inputs) : Prop :=
  ∃ base own, entry.outputs = base ++ own ∧ (entry.outputs.filter fun port => port.zoneItem) = own ∧
    inputs = bindNames graph entry.id Input.value (entryPairs items base own) ∅

/-- The values for the step are read once the entry is complete. -/
theorem runs_stateInputs (entered : Entered before draft path kind resolved entry exit)
    (hitems : Forall₂ (fun item found => found.1 = titleCase item.name) items resolved)
    (named : ∀ item ∈ items, site.rules.item item.name) :
    site.Runs (do
      let time ← timeInput entry.id
      let states ← itemOutputs entry.id
      stateInputs entry.id (items.zip states) time) draft fun inputs draft' => draft' = draft ∧
        StateOf site.name items entry inputs ∧ ∀ name input, inputs.get? name = some input →
          ∃ source, input = .value source ∧ site.Valid draft (entry.id :: path) source := by
  obtain ⟨zone, hfound, hdone, inner, _⟩ := entered
  have shape : entry.Instantiates (kind.entrySpec.withItems resolved) := by
    have h := (sound.shaped hfound inner).2
    rwa [zone.entryInfo] at h
  obtain ⟨base, own, houtputs, hbase, hown, hfilter, _⟩ := exists_itemPorts shape.outputs kind.entry_plain.2
    fun _ => rfl
  have hitem : ∀ port ∈ own, port.zoneItem = true := by
    intro port hport
    rw [← hfilter] at hport
    exact (mem_filter.mp hport).2
  have hownPorts : own ⊆ entry.ports := fun port hport =>
    mem_append_right _ (houtputs ▸ mem_append_right _ hport)
  refine Runs.bindValue (fun b hb => exec_timeInput hb.scope hb.current hfound (sound.distinct hfound) houtputs
    hbase hitem) ?_
  refine Runs.bindValue (fun b hb => exec_itemOutputs hb.current hfound) ?_
  rw [hfilter]
  refine Runs.ofRead fun b hb => ?_
  rw [exec_bindNames hb.scope hb.current hfound (sound.distinct hfound) (fun _ => rfl) (fun _ _ _ _ => rfl) items
    hownPorts]
  refine ⟨rfl, fun inputs hinputs => ⟨rfl, ?_⟩⟩
  have hpairs : inputs = bindNames site.name entry.id Input.value (entryPairs items base own) ∅ := by
    rw [← Except.ok.inj hinputs, bindNames, bindNames, bindNames, entryPairs, foldl_append]
  refine ⟨⟨base, own, houtputs, hfilter, hpairs⟩, fun name input hget => ?_⟩
  rw [hpairs, get?_bindNames, Option.map_eq_some_iff] at hget
  obtain ⟨pair, hfind, rfl⟩ := hget
  refine ⟨_, rfl, rfl, hdone, ⟨entry, pair.2, hfound, rfl, rfl, ?_⟩, ?_⟩
  · exact referable_entry shape hitems named houtputs hbase hown hfind
  · have hshows : (draft.info entry.id).shows = entry.id :: path := by rw [zone.entryInfo]
    exact hshows ▸ suffix_rfl

/-- The last part of a zone: the next state is bound and the outputs are read. -/
def finishZone (session : Session) (exit : NodeId) (items : List Param) (next : List Operand) :
    BuildM CallResult := do
  let ends ← itemInputs exit
  if ends.length < next.length then
    throw (.argumentArity "zone step" ends.length next.length)
  (next.zip ends).forM fun (value, port) => bindOperand session value exit port
  match ← itemOutputs exit with
  | [port] => return .single (← expr exit port)
  | outputs => return .named (← zoneOutputs exit (items.zip outputs) ∅)

theorem runs_zoneResult
    (hnode : draft.graph.node? id = some node) (hitem : ∀ port ∈ node.outputs, port.zoneItem = true) :
    site.Runs (do
      match ← itemOutputs id with
      | [port] => return .single (← expr id port)
      | outputs => return .named (← zoneOutputs id (items.zip outputs) ∅) : BuildM CallResult) draft
      fun result draft' => draft' = draft ∧ result = zoneResult site.name id items node.outputs := by
  refine Runs.ofRead fun b hb => ?_
  have hsub : node.outputs ⊆ node.ports := fun _ h => mem_append_right _ h
  have hown : (node.outputs.filter fun port => port.zoneItem) = node.outputs := filter_eq_self.mpr hitem
  have hexec : exec (do
      match node.outputs.map Port.id with
      | [port] => return .single (← expr id port)
      | outputs => return .named (← zoneOutputs id (items.zip outputs) ∅) : BuildM CallResult) b =
        (.ok (zoneResult site.name id items node.outputs), b) := by
    have hnamed :=
      @exec_bindNames _ _ _ _ _ _ hb.scope hb.current hnode (sound.distinct hnode) _ (fun source => source)
      (fun item => snakeCase item.name) (zoneOutputs id) (fun _ => rfl) (fun _ _ _ _ => rfl) items hsub ∅
    revert hsub hnamed
    generalize node.outputs = ports
    intro hsub hnamed
    match ports with
    | [] => exact exec_bind_ok hnamed
    | [port] =>
      have hport := Node.port?_of_mem (sound.distinct hnode) (hsub (mem_singleton_self port))
      exact exec_bind_ok (exec_expr hb.scope hb.current hnode hport)
    | _ :: _ :: _ => exact exec_bind_ok hnamed
  rw [exec_bind_ok (exec_itemOutputs hb.current hnode), hown, hexec]
  exact ⟨rfl, fun a ha => by cases ha; exact ⟨rfl, rfl⟩⟩

/-- Earlier nodes were left alone, and what the result shows may be used at the path. -/
def Gives (site : Site) (before : Draft) (path : List NodeId) (result : CallResult) (draft : Draft) : Prop :=
  Undisturbed before draft ∧ ∀ source ∈ result.exprs, site.Valid draft path source

omit sound in
/-- Inputs of items are made without a default. -/
theorem default_item {spec : KindSpec}
    (shape : Forall₂ (Port.Fits chosen) (spec.withItems resolved).inputs node.inputs)
    (plain : ∀ socket ∈ spec.inputs, socket.zoneItem = false)
    (pristine : ∀ portId, node.Pristine (spec.withItems resolved) portId) (hport : port ∈ node.inputs)
    (hitem : port.zoneItem = true) : port.default = none := by
  have hall : Forall₂ (fun socket port => port.Fits chosen socket ∧ port.default = socket.default)
      (spec.withItems resolved).inputs node.inputs := forall₂_iff_zip.mpr ⟨shape.length_eq, fun hmem =>
    ⟨(forall₂_iff_zip.mp shape).2 hmem, pristine _ _ hmem rfl⟩⟩
  obtain ⟨socket, hsocket, fits, hdefault⟩ := forall₂_exists_left hall hport
  rcases mem_append.mp hsocket with hplain | hown
  · rw [fits.zoneItem, plain socket hplain] at hitem
    cases hitem
  · obtain ⟨item, _, rfl⟩ := mem_map.mp hown
    exact hdefault

/-- Inputs of items that got no next value are as they were made. -/
theorem continues_of_frame (sound' : draft'.Sound site.rules)
    (unbound : Unbound before draft exit.id exit)
    (hinfo : (draft.info exit.id).shape = kind.exitSpec.withItems resolved)
    {exit' : Node} (found : draft'.graph.node? exit.id = some exit') {ends : List PortId}
    (hends : (exit.inputs.filter fun port => port.zoneItem).map Port.id = ends)
    (frame : Frame (· = exit.id) (· ∈ (next.zip ends).map Prod.snd) draft draft')
    (fed : ∀ pair ∈ next.zip ends, draft'.Fed exit.id pair.2 pair.1) : draft'.graph.Continues exit' next := by
  have rebound : exit.Rebound (· ∈ (next.zip ends).map Prod.snd) exit' := by
    obtain ⟨node, hnode, rebound, _⟩ := frame.nodes exit.id exit unbound.found
    rwa [Option.some.inj (found.symm.trans hnode)]
  have shape : exit.Instantiates (kind.exitSpec.withItems resolved) := hinfo ▸ unbound.shape sound
  have shape' : exit'.Instantiates (kind.exitSpec.withItems resolved) := by
    have h := (sound'.shaped found (rebound.role ▸ unbound.inner)).2
    rwa [frame.later.info _ (by rw [unbound.found]; rfl), hinfo] at h
  obtain ⟨base, own, hinputs, hbase, _, hfilter, _⟩ := exists_itemPorts shape.inputs kind.exit_plain.1
    fun _ => rfl
  obtain ⟨base', own', hinputs', hbase', _, hfilter', _⟩ := exists_itemPorts shape'.inputs kind.exit_plain.1
    fun _ => rfl
  rw [hfilter] at hends
  have hids : own'.map Port.id = ends := by
    have h := rebound.samePorts.inputs
    rw [hinputs, hinputs', map_append, map_append] at h
    rw [(append_inj h (by rw [length_map, length_map, ← hbase.length_eq, hbase'.length_eq])).2, hends]
  have nodup : ends.Nodup := by
    rw [← hends, ← hfilter]
    exact nodup_itemPorts (nodup_inputs sound unbound.found)
  intro place port hport
  rw [hfilter'] at hport
  have hplace : ends[place]? = some port.id := by rw [← hids, getElem?_map, hport]; rfl
  have hmem : port ∈ exit'.inputs := hinputs' ▸ mem_append_right _ (mem_of_getElem? hport)
  rw [rebound.samePorts.id]
  cases hnext : next[place]? with
  | some value =>
    have hpair : (value, port.id) ∈ next.zip ends :=
      mem_of_getElem? (getElem?_zip_eq_some.mpr ⟨hnext, hplace⟩)
    obtain ⟨node, hnode, input, hinput, hid, gets⟩ := fed _ hpair
    rw [found, Option.some.injEq] at hnode
    subst hnode
    exact Node.eq_of_id_eq (nodup_inputs sound' found) hinput hmem hid ▸ gets
  | none =>
    have hfree : port.id ∉ (next.zip ends).map Prod.snd := by
      intro hbound
      obtain ⟨pair, hpair, hid⟩ := mem_map.mp hbound
      obtain ⟨other, hother⟩ := mem_iff_getElem?.mp hpair
      obtain ⟨hvalue, hend⟩ := getElem?_zip_eq_some.mp hother
      have hlt : other < ends.length := (List.getElem?_eq_some_iff.mp hend).1
      rw [(getElem?_inj hlt nodup).mp (hend.trans (hid ▸ hplace.symm)), hnext] at hvalue
      cases hvalue
    rw [← hends] at hplace
    obtain ⟨old, hold, hid⟩ := mem_map.mp (mem_of_getElem? hplace)
    obtain ⟨holdMem, hitem⟩ := mem_filter.mp (hfilter ▸ hold)
    have hsame := Node.eq_of_id_eq (nodup_inputs sound' found) (rebound.inputs old holdMem (hid ▸ hfree)) hmem hid
    subst hsame
    refine .nothing (default_item shape.inputs kind.exit_plain.1 (hinfo ▸ unbound.pristine) holdMem hitem) ?_
    exact (frame.links _ ((sound.codes unbound.found).2 old (mem_append_left _ holdMem)) hfree).trans
      (unbound.free old holdMem)

/-- Next values are bound to the exit, which completes it. -/
theorem runs_finishZone (hdepth : path.length + 1 ≤ site.rules.depth)
    (standard : site.session.IsStandard) (entered : Entered before draft path kind resolved entry exit)
    (hitems : Forall₂ (fun item found => found.1 = titleCase item.name) items resolved)
    (named : ∀ item ∈ items, site.rules.item item.name)
    (valid : ∀ value ∈ next, value.Over (site.Valid draft (entry.id :: path))) :
    site.Runs (finishZone site.session exit.id items next) draft fun result draft' =>
        site.Gives before path result draft' ∧ next.length ≤ items.length ∧ exit.id ∈ draft'.done ∧
          ∃ exit', exit'.id = exit.id ∧ draft'.graph.node? exit.id = some exit' ∧
            draft'.graph.Continues exit' next := by
  obtain ⟨zone, entryFound, entryDone, _, exitUnbound⟩ := entered
  have ready : site.Ready draft (entry.id :: path) exit.id :=
    ⟨standard, hdepth, by rw [zone.exitInfo], by rw [exitUnbound.found]; rfl⟩
  have shape : exit.Instantiates (kind.exitSpec.withItems resolved) := by
    simpa [zone.exitInfo] using exitUnbound.shape sound
  obtain ⟨base, own, hinputs, _, hfits, hfilter, hplain⟩ := exists_itemPorts shape.inputs kind.exit_plain.1
    fun _ => rfl
  refine Runs.bindValue (fun b hb => exec_itemInputs hb.current exitUnbound.found) ?_
  rw [hfilter]
  split
  · exact Runs.bind sound (@Runs.throw _ _ _ (fun _ _ => False) _) fun _ _ _ _ h => h.elim
  next hshort =>
  have hinitial := map_snd_zip_prefix next (own.map Port.id)
  have nodup : (own.map Port.id).Nodup := hfilter ▸ nodup_itemPorts (nodup_inputs sound exitUnbound.found)
  have hown : ∀ portId ∈ (next.zip (own.map Port.id)).map Prod.snd, ∃ port ∈ exit.inputs, port.zoneItem = true ∧
      port.id = portId := by
    intro portId hportId
    have hmem := hinitial.subset hportId
    rw [← hfilter] at hmem
    exact exists_itemPort hmem
  refine Runs.bind sound (runs_bindOperands (nodup.sublist hinitial.sublist) sound ready (fun pair hpair => ?_)
    fun pair hpair => valid _ (of_mem_zip hpair).1) ?_
  · obtain ⟨port, hin, hzone, hid⟩ := hown pair.2 (mem_map_of_mem hpair)
    have henabled : port.enabled = true := enabled_item shape.inputs kind.exit_plain.1 hin hzone
    exact hid ▸ exitUnbound.vacant (mem_filter.mpr ⟨hin, henabled⟩)
  rintro _ draft₁ sound₁ later₁ ⟨frame, fed⟩
  obtain ⟨exit₁, opened₁, rebound⟩ := exitUnbound.toOpened.frame (frame.mono fun portId hportId => by
    obtain ⟨port, hin, _, hid⟩ := hown portId hportId
    exact hid ▸ exitUnbound.ports port (mem_append_left _ hin))
  have zone₁ := zone.later later₁ entryFound exitUnbound.found ⟨rfl, rfl, rfl, rfl⟩
  have hexitInfo := zone₁.exitInfo
  have hentryInfo := zone₁.entryInfo
  have shape₁ : exit₁.Instantiates (kind.exitSpec.withItems resolved) := by
    simpa [hexitInfo] using opened₁.shape sound₁
  have houtputs := fits_exit shape₁
  have hitem : ∀ port ∈ exit₁.outputs, port.zoneItem = true := by
    intro port hport
    obtain ⟨socket, hsocket, fits⟩ := forall₂_exists_left houtputs hport
    obtain ⟨item, _, rfl⟩ := mem_map.mp hsocket
    exact fits.zoneItem
  refine (runs_zoneResult sound₁ opened₁.found hitem).andThen ?_
  rintro result draft₂ steps ⟨rfl, rfl⟩
  have complete : draft₂.Complete site.rules exit.id exit₁ :=
    .exit kind resolved entry.id entry (later₁.done.subset entryDone) ((later₁.kept _ entryDone).trans entryFound)
      zone.paired (rebound.samePorts.pairedOutput.trans zone.unpaired) (by rw [hexitInfo]) (by rw [hentryInfo])
      (by rw [hexitInfo])
  have step : Draft.Step site.rules draft₂ (draft₂.closed exit.id) :=
    .close opened₁.found opened₁.opened opened₁.inner complete
  have hlength := (forall₂_itemPorts (fun _ => ⟨rfl, rfl⟩) hitems houtputs).length_eq
  refine ⟨draft₂.closed exit.id, step, rfl, rfl, ⟨opened₁.undisturbed.close exitUnbound.new (step.later sound₁),
    fun source hsource => ?_⟩, ?_, mem_append_right _ (mem_singleton_self _), exit₁, rebound.samePorts.id,
    opened₁.found, ?_⟩
  · obtain ⟨key, pair, hfind, rfl⟩ := mem_zoneResult_exprs hlength hsource
    refine ⟨rfl, mem_append_right _ (mem_singleton_self _), ?_, ?_⟩
    · exact ⟨exit₁, pair.2, opened₁.found, rfl, rfl, referable_exit shape₁ hitems named hfind⟩
    · have hshows : (draft₂.info exit.id).shows = path := by rw [hexitInfo]
      exact hshows ▸ suffix_rfl
  · rw [length_map] at hshort
    rw [(forall₂_itemPorts (fun _ => ⟨rfl, rfl⟩) hitems hfits).length_eq]
    exact Nat.not_lt.mp hshort
  · exact continues_of_frame sound sound₁ exitUnbound (by rw [zone.exitInfo]) opened₁.found (by rw [hfilter])
      frame fed

/-- A zone is entered once it has been created. -/
theorem runs_enterZone (standard : site.session.IsStandard)
    (hdepth : path.length + 1 ≤ site.rules.depth) (zone : ZoneAt draft path kind resolved entry exit)
    (entryUnbound : Unbound before draft entry.id entry) (exitUnbound : Unbound before draft exit.id exit)
    (hresolved : resolveItems site.session.classes items = .ok resolved)
    (named : ∀ item ∈ items, site.rules.item item.name) (hiterations : iterations.Over (site.Valid draft path))
    (valid : ∀ name argument, initial.get? name = some argument → argument.Over (site.Valid draft path)) :
    site.Runs (Build.enterZone site.session kind iterations items initial entry.id) draft fun inputs draft' =>
      ∃ entry', entry'.id = entry.id ∧ Entered before draft' path kind resolved entry' exit ∧
        StateOf site.name items entry' inputs ∧ ∀ name input, inputs.get? name = some input →
          ∃ source, input = .value source ∧ site.Valid draft' (entry.id :: path) source := by
  have hnamed : ∀ item ∈ resolved, ∃ name, site.rules.item name ∧ item.1 = titleCase name ∧
      item.2 ∈ SocketType.standard := by
    intro item hitem
    obtain ⟨param, hparam, heq, htype⟩ := forall₂_exists_left (resolveItems_eq_ok hresolved) hitem
    rw [standard.classes] at htype
    exact ⟨param.name, named param hparam, heq, SocketClasses.mem_standard_of_resolve? htype⟩
  refine Runs.bind sound (runs_bindIterations sound standard hdepth zone entryUnbound exitUnbound hiterations) ?_
  rintro _ draft₁ sound₁ later₁ ⟨entry₁, hid₁, waiting⟩
  rw [← hid₁]
  refine Runs.bind sound₁ (runs_startZone sound₁ standard (Nat.le_of_succ_le hdepth) waiting hnamed
    fun name argument hget => (valid name argument hget).mono fun _ h => h.later later₁) ?_
  rintro _ draft₂ sound₂ later₂ ⟨entry₂, hid₂, entered⟩
  rw [← hid₂]
  refine (runs_stateInputs sound₂ entered ((resolveItems_eq_ok hresolved).imp fun _ _ h => h.1) named).mono ?_
  rintro inputs _ ⟨rfl, state, held⟩
  exact ⟨entry₂, rfl, entered, state, held⟩

end

end Zone

end Site

end NodeScript
