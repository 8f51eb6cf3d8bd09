import NodeScript.Proofs.Build.Leftovers
import NodeScript.Proofs.Node.Enabling

/-!
# Lowering a call

A call without a first argument adds one node of its kind and the constant nodes that its literals
need. The node has the properties that the arguments say; an argument is shared out over the enabled
inputs of its name, and each input gets a link, a default, or a link from a constant node. All else
in the graph stays.
-/

namespace NodeScript

open Build List OrderedMap

variable {session : Session} {b c : Build} {g g' : Graph} {node : Node} {arguments : Arguments}
  {argument : Argument} {decls : List PropertyDecl} {source : Expr} {node' : Node}
  {entries : List (String × Argument)} {id : NodeId} {groups : List PortGroup} {group : PortGroup}

/-! ## Graphs with more nodes and links -/

/-- The later graph has further nodes and links behind those of the earlier one, which are as they
were. -/
structure Graph.Extends (g : Graph) (nodes : List Node) (links : List Link) (g' : Graph) : Prop where
  nodes : g'.nodes.entries = g.nodes.entries ++ nodes.map fun node => (node.id, node)
  links : g'.links.entries = g.links.entries ++ links.map fun link => (link.id, link)
  name : g'.name = g.name
  interface : g'.interface = g.interface

namespace Graph.Extends

variable {nodes after : List Node} {links : List Link}

theorem withNode (h : g.Extends nodes links g') (new : node.id ∉ g'.nodes.keys) :
    g.Extends (nodes ++ [node]) links (g'.withNode node) where
  nodes := by
    rw [Graph.withNode, entries_insert_of_not_mem new, h.nodes, map_append, append_assoc]
    rfl
  links := h.links
  name := h.name
  interface := h.interface

theorem withLink (h : g.Extends nodes links g') {link : Link} (new : link.id ∉ g'.links.keys) :
    g.Extends nodes (links ++ [link]) (g'.withLink link) where
  nodes := h.nodes
  links := by
    rw [Graph.withLink, entries_insert_of_not_mem new, h.links, map_append, append_assoc]
    rfl
  name := h.name
  interface := h.interface

theorem found (h : g.Extends (node :: after) links g') : g'.node? node.id = some node := by
  refine get?_eq_some_iff.mpr ?_
  rw [h.nodes]
  exact mem_append_right _ mem_cons_self

theorem updateNode (h : g.Extends (node :: after) links g') (hid : node'.id = node.id) :
    g.Extends (node' :: after) links (g'.updateNode node.id fun _ => node') where
  nodes := by
    have hsplit := h.nodes
    have hnodup := g'.nodes.nodup
    rw [hsplit, map_append, nodup_append] at hnodup
    obtain ⟨-, hafter, hbefore⟩ := hnodup
    simp only [map_cons, nodup_cons, mem_cons, map_map] at hafter hbefore
    change g'.nodes.entries.map (fun e => (e.1, if e.1 = node.id then node' else e.2)) = _
    rw [hsplit, map_append, map_cons, map_cons, map_cons, if_pos rfl, hid]
    congr 1
    · refine (map_congr_left fun e he => ?_).trans (map_id _)
      rw [if_neg (hbefore e.1 (mem_map_of_mem he) node.id (.inl rfl))]
      rfl
    · congr 1
      rw [map_map]
      refine map_congr_left fun other hother => ?_
      have hne : other.id ≠ node.id := fun heq =>
        hafter.1 (heq ▸ mem_map.mpr ⟨other, hother, rfl⟩)
      simp [hne]
  links := h.links
  name := h.name
  interface := h.interface

end Graph.Extends

/-! ## Binding rules -/

/-- The values that an argument gives to one input: a list of node outputs gives all of them. -/
inductive Argument.Supplies : Argument → List Operand → Prop
  | expr (source : Expr) : Supplies (.expr source) [.expr source]
  | exprs (source : Expr) (sources : List Expr) :
      Supplies (.list ((source :: sources).map .expr)) ((source :: sources).map .expr)
  | literal {argument : Argument} {value : Literal} (h : argument.literal? = some value) :
      Supplies argument [.literal value]

/-- The arguments that the inputs of a group get. A list of node outputs goes to every input if one
takes any number of links; any other list is shared out over several inputs, so that the last ones
may get nothing; and all else goes to every input. -/
def PortGroup.shares (group : PortGroup) : Argument → List (Argument × PortId)
  | .list items =>
    if group.multiInput && (Argument.list items).isExprList then
      group.ports.flatMap fun port => items.map fun item => (item, port)
    else if 1 < group.ports.length ∧ items ≠ [] then items.zip group.ports
    else group.ports.map fun port => (.list items, port)
  | argument => group.ports.map fun port => (argument, port)

/-- The shares of a group in the argument of its name. -/
def PortGroup.takes (arguments : Arguments) (group : PortGroup) : List (Argument × PortId) :=
  match arguments.get? group.name with
  | some argument => group.shares argument
  | none => []

/-- The values of shares in order. -/
inductive Binds : List (Argument × PortId) → List (Operand × PortId) → Prop
  | nil : Binds [] []
  | cons {argument : Argument} {operands : List Operand} {shares : List (Argument × PortId)}
      {plan : List (Operand × PortId)} (port : PortId)
      (first : argument.Supplies operands) (rest : Binds shares plan) :
      Binds ((argument, port) :: shares) ((operands.map fun operand => (operand, port)) ++ plan)

/-- The port after one value is bound: a literal that its type holds is its default. -/
def Port.receive (port : Port) : Operand × PortId → Port
  | (.literal value, id) =>
    if id = port.id then { port with default := (port.type.coerce? value).or port.default } else port
  | (.expr _, _) => port

/-- The node after values are bound to its inputs. -/
def Node.filled (node : Node) (plan : List (Operand × PortId)) : Node :=
  { node with inputs := node.inputs.map fun port => plan.foldl Port.receive port }

/-- Constant nodes and links for values that are bound to a node in order. A node output gets a
link, and so does a literal that the input does not hold, from a node that carries it. -/
inductive Node.Wired (node : Node) : List (Operand × PortId) → List Node → List Link → Prop
  | nil : Wired node [] [] []
  | expr {plan : List (Operand × PortId)} {constants : List Node} {links : List Link}
      (before : Wired node plan constants links) (source : Expr) (port : PortId) (id : LinkId) :
      Wired node (plan ++ [(.expr source, port)]) constants
        (links ++ [⟨id, source.node, source.port, node.id, port⟩])
  | held {plan : List (Operand × PortId)} {constants : List Node} {links : List Link} {input : Port}
      {value default : Literal} (before : Wired node plan constants links) (found : input ∈ node.inputs)
      (holds : input.type.coerce? value = some default) :
      Wired node (plan ++ [(.literal value, input.id)]) constants links
  | carried {plan : List (Operand × PortId)} {constants : List Node} {links : List Link} {input output : Port}
      {value : Literal} {constant : Node} (before : Wired node plan constants links) (found : input ∈ node.inputs)
      (misfit : input.type.coerce? value = none) (carries : constant.Carries value output) (id : LinkId) :
      Wired node (plan ++ [(.literal value, input.id)]) (constants ++ [constant])
        (links ++ [⟨id, constant.id, output.id, node.id, input.id⟩])

theorem Binds.append {shares shares' : List (Argument × PortId)} {plan plan' : List (Operand × PortId)}
    (first : Binds shares plan) (second : Binds shares' plan') : Binds (shares ++ shares') (plan ++ plan') := by
  induction first with
  | nil => exact second
  | cons port supplies _ ih =>
    rw [append_assoc]
    exact .cons port supplies ih

theorem PortGroup.mem_ports_of_shares (group : PortGroup) {share : Argument × PortId}
    (h : share ∈ group.shares argument) : share.2 ∈ group.ports := by
  unfold shares at h
  split at h
  · split at h
    · obtain ⟨port, hport, hitem⟩ := mem_flatMap.mp h
      obtain ⟨_, _, rfl⟩ := mem_map.mp hitem
      exact hport
    · split at h
      · exact (of_mem_zip h).2
      · obtain ⟨port, hport, rfl⟩ := mem_map.mp h
        exact hport
  · obtain ⟨port, hport, rfl⟩ := mem_map.mp h
    exact hport

theorem Argument.exists_exprs {items : List Argument} (h : (Argument.list items).isExprList = true) :
    ∃ source sources, items = (source :: sources).map Argument.expr := by
  have hall : ∀ items : List Argument, items.all isExpr = true →
      ∃ sources : List Expr, items = sources.map .expr := by
    intro items hall
    induction items with
    | nil => exact ⟨[], rfl⟩
    | cons item rest ih =>
      rw [all_cons, Bool.and_eq_true] at hall
      obtain ⟨sources, rfl⟩ := ih hall.2
      cases item with
      | expr source => exact ⟨source :: sources, rfl⟩
      | _ => cases hall.1
  rw [isExprList, Bool.and_eq_true] at h
  obtain ⟨sources, rfl⟩ := hall items h.2
  cases sources with
  | nil => cases h.1
  | cons source sources => exact ⟨source, sources, rfl⟩

/-! ## Nodes and values -/

namespace Port

variable (plan : List (Operand × PortId)) (port : Port)

@[simp] theorem id_receive (value : Operand × PortId) : (port.receive value).id = port.id := by
  unfold receive
  split
  · split <;> rfl
  · rfl

@[simp] theorem type_receive (value : Operand × PortId) : (port.receive value).type = port.type := by
  unfold receive
  split
  · split <;> rfl
  · rfl

@[simp] theorem id_foldl_receive : (plan.foldl receive port).id = port.id := by
  induction plan generalizing port with
  | nil => rfl
  | cons value rest ih => rw [foldl_cons, ih, id_receive]

@[simp] theorem type_foldl_receive : (plan.foldl receive port).type = port.type := by
  induction plan generalizing port with
  | nil => rfl
  | cons value rest ih => rw [foldl_cons, ih, type_receive]

end Port

namespace Node

variable {plan : List (Operand × PortId)}

theorem portIds_filled (node : Node) (plan : List (Operand × PortId)) :
    (node.filled plan).portIds = node.portIds := by
  simp [portIds, ports, filled, Function.comp_def]

theorem filled_append (node : Node) (plan : List (Operand × PortId)) (value : Operand × PortId) :
    node.filled (plan ++ [value]) = (node.filled plan).filled [value] := by
  simp [filled, Function.comp_def]

variable {input : Port} (value : Literal)

/-- A literal that the input holds becomes its default. -/
theorem updatePort_eq_filled (distinct : node.portIds.Nodup) (hinput : input ∈ node.inputs) {default : Literal}
    (h : input.type.coerce? value = some default) :
    (node.updatePort input.id fun port => { port with default := some default }) =
      node.filled [(.literal value, input.id)] := by
  have hnodup : (node.inputs.map Port.id).Nodup := distinct.sublist ((sublist_append_left _ _).map _)
  have hany : (node.inputs.any fun port => port.id = input.id) = true := any_eq_true.mpr ⟨input, hinput, by simp⟩
  rw [updatePort, if_pos hany, updateFirst_eq_map hnodup]
  simp only [filled, Node.mk.injEq, true_and, and_true, foldl_cons, foldl_nil]
  refine map_congr_left fun port hport => ?_
  by_cases hid : port.id = input.id
  · rw [eq_of_id_eq hnodup hport hinput hid, if_pos rfl, Port.receive, if_pos rfl, h]
    rfl
  · rw [if_neg hid, Port.receive, if_neg (Ne.symm hid)]

/-- Any other leaves the node as it is. -/
theorem filled_misfit (distinct : node.portIds.Nodup) (hinput : input ∈ node.inputs)
    (h : input.type.coerce? value = none) : node.filled [(.literal value, input.id)] = node := by
  have hnodup : (node.inputs.map Port.id).Nodup := distinct.sublist ((sublist_append_left _ _).map _)
  have hinputs : (node.inputs.map fun port => [(Operand.literal value, input.id)].foldl Port.receive port) =
      node.inputs := by
    refine (map_congr_left fun port hport => ?_).trans (map_id _)
    rw [foldl_cons, foldl_nil, Port.receive]
    split
    next hid =>
      rw [eq_of_id_eq hnodup hport hinput hid.symm, h]
      rfl
    next => rfl
  rw [filled, hinputs]

end Node

/-! ## Binding in a graph -/

/-- A link that has been made is behind the others. -/
theorem Build.exec_link_eq_ok (hg : b.current? = some g) {port : PortId}
    (h : exec (link source id port) b = (.ok (), c)) :
    c = (b.withSupply (Supply.fresh b.supply).2).put
      (g.withLink ⟨(Supply.fresh b.supply).1, source.node, source.port, id, port⟩) := by
  obtain ⟨name, hscope, _⟩ := exists_scope hg
  by_cases hgraph : source.graph = name
  · rw [exec_link hscope hg hgraph] at h
    cases hcheck : g.checkLink source.node source.port id port with
    | error e =>
      rw [hcheck] at h
      cases h
    | ok _ =>
      rw [hcheck] at h
      cases h
      rfl
  · unfold link at h
    rw [exec_bind_ok (exec_active hscope), if_pos hgraph] at h
    cases h

/-- The active graph has further nodes and links behind those of an earlier one, and the supply
knows of all of them. -/
def Build.Extended (g : Graph) (nodes : List Node) (links : List Link) (b : Build) : Prop :=
  ∃ g', g.Extends nodes links g' ∧ b.current? = some g' ∧
    ∀ id, id ∈ g'.nodes.keys ∨ id ∈ g'.links.keys → b.supply.Used id

namespace Build.Extended

variable {nodes : List Node} {links : List Link}

theorem link (h : b.Extended g nodes links) {port : PortId}
    (hexec : exec (Build.link source id port) b = (.ok (), c)) :
    ∃ new, c.Extended g nodes (links ++ [⟨new, source.node, source.port, id, port⟩]) := by
  obtain ⟨g', ext, hg, spoken⟩ := h
  have hnew : (Supply.fresh b.supply).1 ∉ g'.links.keys := fun hmem => Supply.fresh_not_used _ (spoken _ (.inr hmem))
  cases exec_link_eq_ok hg hexec
  refine ⟨_, _, ext.withLink hnew, current?_put ((current?_withSupply b _).trans hg) _, fun id hid => ?_⟩
  rw [g'.keys_withLink hnew, mem_append, mem_singleton] at hid
  rw [supply_put]
  refine Supply.used_fresh _ _ ?_
  rcases hid with hid | hid | hid
  · exact .inr (spoken id (.inl hid))
  · exact .inr (spoken id (.inr hid))
  · exact .inl hid

theorem withNode (h : b.Extended g nodes links) (hg : b.current? = some g') {s : Supply}
    (hid : node.id = (Supply.fresh b.supply).1) (hused : ∀ id, id = node.id ∨ b.supply.Used id → s.Used id) :
    ((b.withSupply s).put (g'.withNode node)).Extended g (nodes ++ [node]) links := by
  obtain ⟨_, ext, hg', spoken⟩ := h
  rw [hg, Option.some.injEq] at hg'
  subst hg'
  have hnew : node.id ∉ g'.nodes.keys := fun hmem => Supply.fresh_not_used _ (hid ▸ spoken _ (.inl hmem))
  refine ⟨_, ext.withNode hnew, current?_put ((current?_withSupply b s).trans hg) _, fun id hid => ?_⟩
  rw [supply_put]
  refine hused id (hid.elim (fun hmem => ?_) fun hmem => .inr (spoken id (.inr hmem)))
  rw [Graph.withNode, OrderedMap.keys, entries_insert_of_not_mem hnew, map_append, mem_append] at hmem
  exact hmem.elim (fun h => .inr (spoken id (.inl h))) fun h => .inl (mem_singleton.mp h)

theorem updateNode {after : List Node} (h : b.Extended g (node :: after) links) (hg : b.current? = some g')
    (hid : node'.id = node.id) :
    (b.put (g'.updateNode node.id fun _ => node')).Extended g (node' :: after) links := by
  obtain ⟨_, ext, hg', spoken⟩ := h
  rw [hg, Option.some.injEq] at hg'
  subst hg'
  refine ⟨_, ext.updateNode hid, current?_put hg _, fun id hid => ?_⟩
  rw [supply_put]
  refine spoken id (hid.imp_left fun hmem => ?_)
  rwa [Graph.updateNode, OrderedMap.modify, keys_mapEntries] at hmem

theorem constant (standard : session.IsStandard) (h : b.Extended g nodes links) {value : Literal}
    (hexec : exec (Build.constant session value) b = (.ok source, c)) :
    ∃ constant output, constant.Carries value output ∧ source.node = constant.id ∧ source.port = output.id ∧
      c.Extended g (nodes ++ [constant]) links := by
  have hext := h
  obtain ⟨g', _, hg, _⟩ := hext
  obtain ⟨name, hscope, _⟩ := exists_scope hg
  obtain ⟨constant, output, s, carries, hid, hused, rfl, rfl⟩ := exec_constant standard hscope hg hexec
  exact ⟨constant, output, carries, rfl, rfl, h.withNode hg hid hused⟩

end Build.Extended

/-- The build has got as far as to bind some values to the node. -/
def Node.Stage (g : Graph) (node : Node) (plan : List (Operand × PortId)) (b : Build) : Prop :=
  ∃ constants links, node.Wired plan constants links ∧ b.Extended g (node.filled plan :: constants) links

namespace Node.Stage

variable {plan : List (Operand × PortId)} {input : Port} {name : String}

section

variable (h : node.Stage g plan b)
include h

theorem link {port : PortId} (hexec : exec (Build.link source node.id port) b = (.ok (), c)) :
    node.Stage g (plan ++ [(.expr source, port)]) c := by
  obtain ⟨constants, links, wired, ext⟩ := h
  obtain ⟨id, ext'⟩ := ext.link hexec
  have hfilled : node.filled (plan ++ [(.expr source, port)]) = node.filled plan := by simp [filled, Port.receive]
  exact ⟨constants, _, wired.expr source port id, hfilled ▸ ext'⟩

theorem links {port : PortId} {sources : List Expr}
    (hexec : exec ((sources.map Argument.expr).forM (bindPlain session name node.id port)) b = (.ok (), c)) :
    node.Stage g (plan ++ (sources.map Operand.expr).map fun operand => (operand, port)) c := by
  induction sources generalizing plan b with
  | nil =>
    cases hexec
    rwa [map_nil, map_nil, append_nil]
  | cons source rest ih =>
    rw [map_cons] at hexec
    obtain ⟨_, b₁, hfirst, hrest⟩ := exec_bind_eq_ok.mp hexec
    have hlast := ih (h.link hfirst) hrest
    rwa [append_assoc] at hlast

variable (standard : session.IsStandard) (distinct : node.portIds.Nodup)
include standard distinct

theorem bindLiteral (hinput : input ∈ node.inputs) {value : Literal}
    (hexec : exec (Build.bindLiteral session value node.id input.id) b = (.ok (), c)) :
    node.Stage g (plan ++ [(.literal value, input.id)]) c := by
  obtain ⟨constants, links, wired, ext⟩ := h
  have hdistinct : (node.filled plan).portIds.Nodup := (node.portIds_filled plan).symm ▸ distinct
  have hfilled : plan.foldl Port.receive input ∈ (node.filled plan).inputs :=
    mem_map_of_mem (f := fun port => plan.foldl Port.receive port) hinput
  have hport : (node.filled plan).port? input.id = some (plan.foldl Port.receive input) := by
    have hfound := port?_of_mem hdistinct (mem_append_left _ hfilled)
    rwa [Port.id_foldl_receive] at hfound
  have hext := ext
  obtain ⟨g', ext', hg, _⟩ := hext
  have hnode : g'.node? node.id = some (node.filled plan) := ext'.found
  unfold Build.bindLiteral at hexec
  rw [exec_bind_ok (exec_port_of hg hnode hport), Port.type_foldl_receive] at hexec
  cases hcoerce : input.type.coerce? value with
  | some default =>
    have hset := updatePort_eq_filled value hdistinct hfilled
      ((congrArg (·.coerce? value) (Port.type_foldl_receive plan input)).trans hcoerce)
    rw [hcoerce] at hexec
    dsimp only at hexec
    rw [exec_setDefault hg hnode hport] at hexec
    cases hexec
    rw [Port.id_foldl_receive, ← filled_append] at hset
    rw [hset]
    exact ⟨constants, links, wired.held hinput hcoerce, ext.updateNode hg rfl⟩
  | none =>
    have hmisfit := filled_misfit value hdistinct hfilled (by rw [Port.type_foldl_receive, hcoerce])
    rw [Port.id_foldl_receive, ← filled_append] at hmisfit
    rw [hcoerce] at hexec
    obtain ⟨source, b₁, hconstant, hlink⟩ := exec_bind_eq_ok.mp hexec
    obtain ⟨constant, output, carries, hfrom, hout, ext₁⟩ := ext.constant standard hconstant
    obtain ⟨id, ext₂⟩ := ext₁.link hlink
    rw [hfrom, hout] at ext₂
    exact ⟨_, _, wired.carried hinput hcoerce carries id, hmisfit.symm ▸ ext₂⟩

theorem bindPlain (hinput : input ∈ node.inputs)
    (hexec : exec (Build.bindPlain session name node.id input.id argument) b = (.ok (), c)) :
    ∃ operands, argument.Supplies operands ∧
      node.Stage g (plan ++ operands.map fun operand => (operand, input.id)) c := by
  cases argument with
  | expr source => exact ⟨[.expr source], .expr source, h.link hexec⟩
  | group group => cases hexec
  | literal value => exact ⟨[.literal value], .literal rfl, h.bindLiteral standard distinct hinput hexec⟩
  | choice chosen => exact ⟨[.literal (.text chosen)], .literal rfl, h.bindLiteral standard distinct hinput hexec⟩
  | list items =>
    unfold Build.bindPlain at hexec
    dsimp only at hexec
    cases hvalue : (Argument.list items).literal? with
    | none =>
      rw [hvalue] at hexec
      cases hexec
    | some value =>
      rw [hvalue] at hexec
      exact ⟨[.literal value], .literal hvalue, h.bindLiteral standard distinct hinput hexec⟩

theorem bindArgument (hinput : input ∈ node.inputs)
    (hexec : exec (Build.bindArgument session name node.id input.id argument) b = (.ok (), c)) :
    ∃ operands, argument.Supplies operands ∧
      node.Stage g (plan ++ operands.map fun operand => (operand, input.id)) c := by
  unfold Build.bindArgument at hexec
  split at hexec
  next items =>
    split at hexec
    next hlist =>
      obtain ⟨source, sources, rfl⟩ := Argument.exists_exprs hlist
      exact ⟨_, .exprs source sources, h.links hexec⟩
    next => exact h.bindPlain standard distinct hinput hexec
  next => exact h.bindPlain standard distinct hinput hexec

theorem bindShares {shares : List (Argument × PortId)}
    (hshares : ∀ share ∈ shares, ∃ input ∈ node.inputs, input.id = share.2)
    (hexec : exec (shares.forM fun share => Build.bindArgument session name node.id share.2 share.1) b =
      (.ok (), c)) :
    ∃ bound, Binds shares bound ∧ node.Stage g (plan ++ bound) c := by
  induction shares generalizing plan b with
  | nil =>
    cases hexec
    exact ⟨[], .nil, (append_nil plan).symm ▸ h⟩
  | cons share rest ih =>
    obtain ⟨argument, port⟩ := share
    obtain ⟨input, hinput, rfl⟩ := hshares _ mem_cons_self
    obtain ⟨_, b₁, hfirst, hrest⟩ := exec_bind_eq_ok.mp hexec
    obtain ⟨operands, supplies, h₁⟩ := h.bindArgument standard distinct hinput hfirst
    obtain ⟨bound, binds, h₂⟩ := ih h₁ (fun share hshare => hshares share (.tail _ hshare)) hrest
    rw [append_assoc] at h₂
    exact ⟨_, .cons input.id supplies binds, h₂⟩

omit h in
omit standard distinct in
/-- Binding a group binds its shares. -/
theorem exec_bindGroup (h : exec (Build.bindGroup session id group argument) b = (.ok (), c)) :
    exec ((group.shares argument).forM fun share => Build.bindArgument session group.name id share.2 share.1) b =
      (.ok (), c) := by
  have happend : ∀ (as bs : List (Argument × PortId)) (f : Argument × PortId → BuildM PUnit),
      (as ++ bs).forM f = as.forM f >>= fun _ => bs.forM f := by
    intro as bs f
    induction as with
    | nil => exact (pure_bind _ _).symm
    | cons a rest ih => exact (congrArg (fun m => f a >>= fun _ => m) ih).trans (bind_assoc _ _ _).symm
  have hflat : ∀ (ports : List PortId) (items : List Argument) (f : Argument × PortId → BuildM PUnit),
      (ports.flatMap fun port => items.map fun item => (item, port)).forM f =
        ports.forM fun port => items.forM fun item => f (item, port) := by
    intro ports items f
    induction ports with
    | nil => rfl
    | cons port rest ih =>
      rw [flatMap_cons, happend, ih, Site.forM_map]
      rfl
  cases argument with
  | list items =>
    rw [Build.bindGroup] at h
    rw [PortGroup.shares]
    dsimp only at h
    split at h
    next hmulti => rwa [if_pos hmulti, hflat]
    next hmulti =>
      rw [if_neg hmulti]
      split at h
      next hseveral =>
        split at h
        next => cases h
        next =>
          split at h
          next hempty =>
            rw [if_neg (fun hboth => hboth.2 (isEmpty_iff.mp hempty)), Site.forM_map]
            exact h
          next hsome => rwa [if_pos ⟨hseveral, fun h => hsome (isEmpty_iff.mpr h)⟩]
      next hsingle =>
        rw [if_neg (fun hboth => hsingle hboth.1), Site.forM_map]
        exact h
  | _ =>
    rw [PortGroup.shares, Site.forM_map]
    · exact h
    · simp

theorem bindGroups (hports : ∀ group ∈ groups, ∀ port ∈ group.ports, ∃ input ∈ node.inputs, input.id = port)
    (hexec : exec (Build.bindGroups session node.id arguments groups) b = (.ok (), c)) :
    ∃ bound, Binds (groups.flatMap (PortGroup.takes arguments)) bound ∧ node.Stage g (plan ++ bound) c := by
  induction groups generalizing plan b with
  | nil =>
    cases hexec
    exact ⟨[], .nil, (append_nil plan).symm ▸ h⟩
  | cons group rest ih =>
    rw [Build.bindGroups] at hexec
    rw [flatMap_cons, PortGroup.takes]
    have hrest := fun other hother => hports other (mem_cons_of_mem group hother)
    cases hget : arguments.get? group.name with
    | none =>
      rw [hget] at hexec
      exact ih h hrest hexec
    | some argument =>
      rw [hget] at hexec
      obtain ⟨_, b₁, hfirst, hexec⟩ := exec_bind_eq_ok.mp hexec
      have hshares : ∀ share ∈ group.shares argument, ∃ input ∈ node.inputs, input.id = share.2 :=
        fun share hshare => hports group mem_cons_self _ (group.mem_ports_of_shares hshare)
      obtain ⟨first, binds, h₁⟩ := h.bindShares standard distinct hshares (exec_bindGroup hfirst)
      obtain ⟨bound, binds', h₂⟩ := ih h₁ hrest hexec
      rw [append_assoc] at h₂
      exact ⟨_, binds.append binds', h₂⟩

end

end Node.Stage

/-! ## Properties -/

/-- The property has the value that the argument of its name stands for, or else its default. -/
def Property.Assigned (arguments : Arguments) (decl : PropertyDecl) (property : Property) : Prop :=
  property.decl = decl ∧ match arguments.get? decl.name with
    | some argument => decl.valueOf argument = .ok property.value
    | none => property.value = decl.default

namespace Node

theorem updateFirst_append {α : Type} {test : α → Bool} (f : α → α) {as : List α} (hother : ∀ a ∈ as, test a = false)
    {a : α} (h : test a = true) (rest : List α) : updateFirst test f (as ++ a :: rest) = as ++ f a :: rest := by
  induction as with
  | nil => simp [updateFirst, h]
  | cons first as ih =>
    rw [cons_append, updateFirst, hother first mem_cons_self, if_neg Bool.false_ne_true,
      ih fun a ha => hother a (.tail _ ha)]
    rfl

/-- Assigning a property that is the first of its name. -/
theorem setProperty_withProperties {done rest : List Property} {decl : PropertyDecl} {old value : PropertyValue}
    (hfirst : ∀ property ∈ done, property.decl.name ≠ decl.name)
    (h : (node.withProperties (done ++ ⟨decl, old⟩ :: rest)).setProperty decl.name value = .ok node') :
    node' = node.withProperties (done ++ ⟨decl, value⟩ :: rest) := by
  obtain ⟨_, _, _, rfl⟩ := setProperty_eq_ok.mp h
  have hupdate := @updateFirst_append _ (fun property => decide (property.decl.name = decl.name))
    (fun property => { property with value }) done (fun property hmem => decide_eq_false (hfirst property hmem))
    ⟨decl, old⟩ (decide_eq_true rfl) rest
  rw [← hupdate]
  exact node.withProperties_withProperties (done ++ ⟨decl, old⟩ :: rest) _

end Node

/-- What is left of the arguments behind the properties. -/
def Arguments.without (arguments : Arguments) (decls : List PropertyDecl) : Arguments :=
  decls.foldl (fun left decl => left.erase decl.name) arguments

theorem Arguments.get?_without {name : String} (h : name ∉ decls.map PropertyDecl.name) :
    (arguments.without decls).get? name = arguments.get? name := by
  induction decls generalizing arguments with
  | nil => rfl
  | cons decl rest ih =>
    rw [map_cons, mem_cons, not_or] at h
    exact (ih h.2).trans ((get?_erase _ _ _).trans (if_neg h.1))

/-- Properties are assigned one after another, and their arguments are used up. -/
theorem Build.exec_bindProperties {done : List Property} {left rest : Arguments} (hg : b.current? = some g)
    (hnode : g.node? node.id = some (node.withProperties (done ++ decls.map fun decl => ⟨decl, decl.default⟩)))
    (names : ((done.map Property.decl ++ decls).map PropertyDecl.name).Nodup)
    (same : ∀ decl ∈ decls, left.get? decl.name = arguments.get? decl.name)
    (h : exec (bindProperties node.id decls left) b = (.ok rest, c)) :
    ∃ properties, Forall₂ (Property.Assigned arguments) decls properties ∧
      c = b.put (g.updateNode node.id fun _ => node.withProperties (done ++ properties)) ∧
      rest = left.without decls := by
  induction decls generalizing b g done left with
  | nil =>
    cases h
    refine ⟨[], .nil, ?_, rfl⟩
    rw [map_nil] at hnode
    rw [Graph.updateNode_self hnode, put_self hg]
  | cons decl others ih =>
    have hsplit := names
    rw [map_append, map_cons, nodup_append] at hsplit
    obtain ⟨_, hrest, hdone⟩ := hsplit
    have hothers : ∀ other ∈ others, other.name ≠ decl.name := fun other hother heq =>
      (nodup_cons.mp hrest).1 (heq ▸ mem_map_of_mem hother)
    have hfirst : ∀ property ∈ done, property.decl.name ≠ decl.name := fun property hmem =>
      hdone _ (mem_map_of_mem (mem_map_of_mem hmem)) _ mem_cons_self
    have hnext : ∀ value : PropertyValue,
        (((done ++ [(⟨decl, value⟩ : Property)]).map Property.decl ++ others).map PropertyDecl.name).Nodup := by
      intro value
      simpa using names
    have hsame := same decl mem_cons_self
    rw [bindProperties] at h
    cases hget : left.get? decl.name with
    | none =>
      rw [hget] at h hsame
      obtain ⟨properties, assigned, hc, hrest⟩ := @ih b g (done ++ [⟨decl, decl.default⟩]) left hg
        (by simpa using hnode) (hnext _) (fun other hother => same other (.tail _ hother)) h
      refine ⟨⟨decl, decl.default⟩ :: properties, .cons ⟨rfl, ?_⟩ assigned, by simpa using hc, ?_⟩
      · rw [← hsame]
      · rw [hrest, Arguments.without, Arguments.without, foldl_cons, erase_of_get?_eq_none hget]
    | some argument =>
      rw [hget] at h hsame
      obtain ⟨value, b₁, hread, h⟩ := exec_bind_eq_ok.mp h
      obtain ⟨hvalue, rfl⟩ := Prod.mk.inj ((exec_ofExcept _ _).symm.trans hread)
      obtain ⟨_, b₂, hset, h⟩ := exec_bind_eq_ok.mp h
      rw [exec_setProperty hg, hnode, map_cons] at hset
      dsimp only at hset
      split at hset
      next => cases hset
      next node' hnode' =>
        cases hset
        cases Node.setProperty_withProperties hfirst hnode'
        have hnode₂ := g.node?_updateNode node.id node.id fun _ => node.withProperties
          (done ++ ⟨decl, value⟩ :: others.map fun decl => ⟨decl, decl.default⟩)
        rw [if_pos rfl, hnode, Option.map_some] at hnode₂
        obtain ⟨properties, assigned, hc, hrest⟩ := @ih _ _ (done ++ [⟨decl, value⟩]) _ (current?_put hg _)
          (by simpa using hnode₂) (hnext _)
          (fun other hother => (get?_erase .. |>.trans (if_neg (hothers other hother))).trans
            (same other (.tail _ hother))) h
        · refine ⟨⟨decl, value⟩ :: properties, .cons ⟨rfl, ?_⟩ assigned, ?_, hrest⟩
          · rw [← hsame]
            exact hvalue
          · rw [hc, put_put, Graph.updateNode_updateNode]
            simp [Function.comp_def]

/-! ## Calls -/

/-- Of the standard kinds, properties have different names, and no input is called like one. -/
theorem standardKinds_properties : ∀ spec ∈ Catalog.standardKinds, (spec.properties.map PropertyDecl.name).Nodup ∧
    ∀ socket ∈ spec.inputs, snakeCase socket.name ∉ spec.properties.map PropertyDecl.name := by
  decide +kernel

/-- A node of a description with the properties that the arguments say. Its ports are enabled under
these, and the inputs have the written defaults. -/
structure Node.Configured (spec : KindSpec) (arguments : Arguments) (node : Node) : Prop where
  kind : node.kind = spec.id
  properties : Forall₂ (Property.Assigned arguments) spec.properties node.properties
  inputs : Forall₂ (fun socket port => port.Fits node.chosen socket ∧ port.default = socket.default) spec.inputs
    node.inputs
  outputs : Forall₂ (Port.Fits node.chosen) spec.outputs node.outputs

namespace Node

variable {spec : KindSpec}

theorem configured_withProperties {lo hi : Nat} (made : node.Made spec lo hi) {properties : List Property}
    (assigned : Forall₂ (Property.Assigned arguments) spec.properties properties) :
    (node.withProperties properties).Configured spec arguments where
  kind := made.shape.kind
  properties := assigned
  inputs := by
    refine forall₂_map_right_iff.mpr (forall₂_iff_zip.mpr ⟨made.shape.inputs.length_eq, fun hmem => ?_⟩)
    refine ⟨((forall₂_iff_zip.mp made.shape.inputs).2 hmem).refresh, ?_⟩
    rw [refreshPort_eq]
    exact made.pristine _ _ hmem rfl
  outputs := forall₂_refreshPort made.shape.outputs

/-- The outputs of a node with the arguments as defaults, each at the output that takes it. All else
stays. -/
structure GivenDefaults (entries : List (String × Argument)) (node : Node) (outputs : List Port) : Prop where
  given : entries.foldlM (fun node e => node.giveDefault e.1 e.2) node = .ok { node with outputs }
  same : (outputs.map fun port => { port with default := none }) =
    node.outputs.map fun port => { port with default := none }

theorem givenDefaults_of_foldlM (h : entries.foldlM (fun node e => node.giveDefault e.1 e.2) node = .ok node') :
    ∃ outputs, node' = { node with outputs } ∧ GivenDefaults entries node outputs := by
  suffices hsame : ∃ outputs, node' = { node with outputs } ∧
      (outputs.map fun port => { port with default := none }) =
      node.outputs.map fun port => { port with default := none } by
    obtain ⟨outputs, rfl, houtputs⟩ := hsame
    exact ⟨outputs, rfl, h, houtputs⟩
  induction entries generalizing node with
  | nil =>
    cases h
    exact ⟨_, rfl, rfl⟩
  | cons entry rest ih =>
    rw [foldlM_cons] at h
    obtain ⟨middle, hfirst, h⟩ := Except.bind_eq_ok.mp h
    obtain ⟨outputs, rfl, houtputs⟩ := ih h
    obtain ⟨value, _, rfl⟩ := giveDefault_eq_ok.mp hfirst
    refine ⟨outputs, rfl, houtputs.trans ?_⟩
    exact map_updateFirst (f := fun port : Port => { port with default := some value })
      (g := fun port : Port => { port with default := none }) (fun _ => rfl) _

end Node

/-- Inputs that are not called like one of the arguments that have been used up. -/
theorem PortGroup.takes_congr {rest : Arguments}
    (h : group.ports ≠ [] → rest.get? group.name = arguments.get? group.name) :
    group.takes rest = group.takes arguments := by
  by_cases hports : group.ports = []
  · have hnone : ∀ argument, group.shares argument = [] := by
      intro argument
      unfold shares
      split <;> simp [hports]
    have hempty : ∀ arguments : Arguments, takes arguments group = [] := by
      intro arguments
      unfold takes
      split
      · exact hnone _
      · rfl
    rw [hempty, hempty]
  · rw [takes, takes, h hports]

namespace Build

variable {result : CallResult}

/-- Arguments that neither a property nor a group of inputs takes. -/
def leftover (arguments : Arguments) (groups : List PortGroup) : List (String × Argument) :=
  arguments.entries.filter fun (name, _) => !groups.any fun group => group.name = name

/-- Arguments go to the inputs of a new node in groups, and what is left to its outputs. -/
theorem Extended.bindInputs (standard : session.IsStandard)
    (ext : b.Extended g [node] []) (distinct : node.portIds.Nodup)
    (sorts : PortGroup.Sorts groups node.enabledInputs)
    (h : exec (do
      bindGroups session node.id arguments groups
      bindRest node.id entries
      callResult node.id) b = (.ok result, c)) :
    ∃ plan constants links outputs, Binds (groups.flatMap (PortGroup.takes arguments)) plan ∧
      node.Wired plan constants links ∧ Node.GivenDefaults entries (node.filled plan) outputs ∧
      c.Extended g ({ node.filled plan with outputs } :: constants) links := by
  have hports : ∀ group ∈ groups, ∀ port ∈ group.ports, ∃ input ∈ node.inputs, input.id = port := by
    intro group hgroup port hport
    obtain ⟨input, hinput, hid⟩ := sorts.exists_port (mem_flatMap.mpr ⟨group, hgroup, hport⟩)
    exact ⟨input, mem_of_mem_filter hinput, hid⟩
  have hfilled : node.filled [] = node := by simp [Node.filled]
  have stage : node.Stage g [] b := ⟨[], [], .nil, hfilled.symm ▸ ext⟩
  obtain ⟨_, b₁, hgroups, h⟩ := exec_bind_eq_ok.mp h
  obtain ⟨plan, binds, constants, links, wired, ext₁⟩ := stage.bindGroups standard distinct hports hgroups
  rw [nil_append] at wired ext₁
  have hext := ext₁
  obtain ⟨g₁, ext₁', hg₁, _⟩ := hext
  have hdistinct : (node.filled plan).portIds.Nodup := (node.portIds_filled plan).symm ▸ distinct
  obtain ⟨_, b₂, hrest, h⟩ := exec_bind_eq_ok.mp h
  have hdefaults := exec_bindRest hg₁ ext₁'.found hdistinct entries
  split at hdefaults
  next =>
    obtain ⟨_, herror⟩ := hdefaults
    cases hrest.symm.trans herror
  next node' hnode' =>
    obtain ⟨warnings, hok⟩ := hdefaults
    cases hrest.symm.trans hok
    obtain ⟨outputs, rfl, houtputs⟩ := Node.givenDefaults_of_foldlM hnode'
    have ext₂ : ((b₁.put (g₁.updateNode node.id fun _ => { node.filled plan with outputs })).withWarnings
        warnings).Extended g ({ node.filled plan with outputs } :: constants) links :=
      @Extended.updateNode b₁ g g₁ (node.filled plan) { node.filled plan with outputs } links constants ext₁ hg₁ rfl
    have hext := ext₂
    obtain ⟨g₂, ext₂', hg₂, _⟩ := hext
    obtain ⟨name, hscope, _⟩ := exists_scope hg₂
    have hids : ({ node.filled plan with outputs } : Node).portIds = (node.filled plan).portIds := by
      have hsame := congrArg (map Port.id) houtputs.same
      rw [map_map, map_map] at hsame
      exact (map_append).trans ((congrArg (_ ++ ·) hsame).trans map_append.symm)
    rw [← hids] at hdistinct
    have hresult := Site.exec_callResult hscope hg₂ ext₂'.found hdistinct
    cases hresult.symm.trans h
    exact ⟨plan, constants, links, outputs, binds, wired, houtputs, ext₂⟩

/-- A new node gets the arguments: first its properties, then its inputs under these. -/
theorem Extended.bindArguments (standard : session.IsStandard) (plain : arguments.Plain)
    (ext : b.Extended g [node] []) (distinct : node.portIds.Nodup)
    (hnode : node.withProperties (decls.map fun decl => ⟨decl, decl.default⟩) = node)
    (names : (decls.map PropertyDecl.name).Nodup)
    (apart : ∀ input ∈ node.inputs, snakeCase input.name ∉ decls.map PropertyDecl.name)
    (h : exec (bindArguments session node.id none arguments) b = (.ok result, c)) :
    ∃ properties groups plan constants links outputs, Forall₂ (Property.Assigned arguments) decls properties ∧
      PortGroup.Sorts groups (node.withProperties properties).enabledInputs ∧
      Binds (groups.flatMap (PortGroup.takes arguments)) plan ∧
      (node.withProperties properties).Wired plan constants links ∧
      Node.GivenDefaults (leftover (arguments.without decls) groups)
        ((node.withProperties properties).filled plan) outputs ∧
      c.Extended g ({ (node.withProperties properties).filled plan with outputs } :: constants) links := by
  have hext := ext
  obtain ⟨g₀, ext₀, hg₀, _⟩ := hext
  unfold Build.bindArguments at h
  rw [exec_bind_ok (rfl : exec (bindPrimary node.id none) b = (.ok none, b)),
    exec_bind_ok (exec_node_of hg₀ ext₀.found),
    spreadGroups_eq plain] at h
  have hdecls : node.properties.map Property.decl = decls := by
    rw [← hnode]
    simp [Node.withProperties, Node.refresh, Function.comp_def]
  rw [hdecls] at h
  obtain ⟨rest, b₁, hproperties, h⟩ := exec_bind_eq_ok.mp h
  obtain ⟨properties, assigned, rfl, rfl⟩ := @exec_bindProperties b b₁ g₀ node arguments decls [] arguments rest hg₀
    (by rw [nil_append, hnode]; exact ext₀.found) names (fun _ _ => rfl) hproperties
  rw [nil_append] at h
  have ext₁ := @Extended.updateNode b g g₀ node (node.withProperties properties) [] [] ext hg₀ rfl
  have hext := ext₁
  obtain ⟨g₁, ext₁', hg₁, _⟩ := hext
  have hnode₁ : g₁.node? node.id = some (node.withProperties properties) := ext₁'.found
  have hids : (node.withProperties properties).portIds = node.portIds := by
    simp [Node.portIds, Node.ports, Node.withProperties, Node.refresh, Node.refreshPort_eq, Function.comp_def]
  have hinputs : ((node.withProperties properties).enabledInputs.filter fun port => some port.id ≠ none) =
      (node.withProperties properties).enabledInputs := by simp
  have sorts := PortGroup.sorts_ofPorts (node.withProperties properties).enabledInputs
  rw [exec_bind_ok (exec_node_of hg₁ hnode₁), hinputs] at h
  obtain ⟨plan, constants, links, outputs, binds, wired, houtputs, ext₂⟩ :=
    ext₁.bindInputs standard (hids.symm ▸ distinct) sorts h
  refine ⟨properties, _, plan, constants, links, outputs, assigned, sorts, ?_, wired, houtputs, ext₂⟩
  -- The inputs have other names than the properties, so their arguments are still there.
  have htakes : ∀ group ∈ PortGroup.ofPorts (node.withProperties properties).enabledInputs,
      group.takes (arguments.without decls) = group.takes arguments := by
    intro group hgroup
    refine PortGroup.takes_congr fun hsome => Arguments.get?_without ?_
    rw [sorts.members group hgroup, ne_eq, map_eq_nil_iff] at hsome
    obtain ⟨port, hport⟩ := exists_mem_of_ne_nil _ hsome
    obtain ⟨hport, hkey⟩ := mem_filter.mp hport
    obtain ⟨input, hinput, rfl⟩ := mem_map.mp (mem_of_mem_filter hport)
    have hname : snakeCase (Node.refreshPort _ input).name = group.name := congrArg Prod.fst (of_decide_eq_true hkey)
    rw [Node.refreshPort_eq] at hname
    exact hname ▸ apart input hinput
  rwa [flatMap_congr htakes] at binds

/-- A call that succeeds adds one node and the constant nodes of its literals, and leaves the rest
of the graph alone. The properties hold what their arguments stand for, or their defaults. Of the
inputs that are enabled under them, each gets its share of the argument of its name, by a link or as
its default, and the others keep theirs. What is left over goes to the defaults of the outputs. -/
theorem lower_binds_arguments (s : Supply) {spec : KindSpec} (listed : spec ∈ Catalog.standardKinds)
    (inner : spec.role.isBoundary = false) (plain : arguments.Plain) (hg : b.current? = some g)
    (spoken : ∀ id, id ∈ g.nodes.keys ∨ id ∈ g.links.keys → b.supply.Used id) {result : CallResult}
    (h : exec (lower (Session.standard s) spec.id none arguments) b = (.ok result, c)) :
    ∃ (node : Node) (groups : List PortGroup) (plan : List (Operand × PortId))
      (constants : List Node) (links : List Link)
      (outputs : List Port) (g' : Graph), node.Configured spec arguments ∧
      PortGroup.Sorts groups node.enabledInputs ∧ Binds (groups.flatMap (PortGroup.takes arguments)) plan ∧
      node.Wired plan constants links ∧
      Node.GivenDefaults (leftover (arguments.without spec.properties) groups) (node.filled plan) outputs ∧
      c.current? = some g' ∧ g.Extends ({ node.filled plan with outputs } :: constants) links g' := by
  have standard := Session.isStandard_standard s
  obtain ⟨kind, hfound, minted⟩ := standard.catalog.exists_kind listed
  have made := Node.made_ofKind minted (standardKinds_defaults spec listed) b.supply
  obtain ⟨names, apart⟩ := standardKinds_properties spec listed
  have before : b.Extended g [] [] := ⟨g, ⟨by simp, by simp, rfl, rfl⟩, hg, spoken⟩
  have ext := before.withNode hg rfl (Supply.used_ofKind kind b.supply)
  unfold lower at h
  rw [exec_bind_ok (exec_addNode hg hfound (minted.role ▸ inner))] at h
  have hnode : (Node.ofKind kind b.supply).1.withProperties (spec.properties.map fun decl => ⟨decl, decl.default⟩) =
      (Node.ofKind kind b.supply).1 := by
    rw [← minted.properties]
    exact Node.withProperties_ofKind kind b.supply
  have hnames : ∀ input ∈ (Node.ofKind kind b.supply).1.inputs,
      snakeCase input.name ∉ spec.properties.map PropertyDecl.name := by
    intro input hinput
    obtain ⟨socket, hsocket, fits⟩ := forall₂_exists_left made.shape.inputs hinput
    exact fits.name ▸ apart socket hsocket
  obtain ⟨properties, groups, plan, constants, links, outputs,
      assigned, sorts, binds, wired, houtputs, g', ext', hg', _⟩ :=
    ext.bindArguments standard plain (nodup_cons.mp made.draws.nodup).2 hnode names hnames h
  exact ⟨_, groups, plan, constants, links, outputs, g',
    Node.configured_withProperties made assigned, sorts, binds, wired,
    houtputs, hg', ext'⟩

/-- Of three inputs, the first is linked to a node of the graph, the second to a new constant node,
and the third stays. -/
theorem lower_binds_arguments_multiplyAdd :
    let source : Node := {
      id := ⟨1⟩, kind := "ShaderNodeValue", name := "Value", role := .regular, inputs := []
      outputs := [⟨.output "Value" .float, ⟨2⟩⟩], properties := [] }
    let g : Graph := ({ name := "Graph" } : Graph).withNode source
    let b : Build := { store := Store.empty.set "Graph" g, supply := { next := 3 }, scopes := ["Graph"] }
    let arguments : Arguments := ((∅ : Arguments).insert "operation" (.choice "MULTIPLY_ADD")).insert "value"
      (.list [.expr ⟨"Graph", ⟨1⟩, ⟨2⟩, .float⟩, .literal (.bool true)])
    ∃ spec ∈ Catalog.standardKinds, spec.id = "ShaderNodeMath" ∧ ∃ result c,
      exec (lower (Session.standard {}) spec.id none arguments) b = (.ok result, c) ∧
      ∃ (node : Node) (groups : List PortGroup) (plan : List (Operand × PortId)) (constants : List Node)
        (links : List Link) (outputs : List Port) (g' : Graph), node.Configured spec arguments ∧
        PortGroup.Sorts groups node.enabledInputs ∧ Binds (groups.flatMap (PortGroup.takes arguments)) plan ∧
        node.Wired plan constants links ∧
        Node.GivenDefaults (leftover (arguments.without spec.properties) groups) (node.filled plan) outputs ∧
        c.current? = some g' ∧ g.Extends ({ node.filled plan with outputs } :: constants) links g' := by
  intro source g b arguments
  have listed : Catalog.mathKinds[0] ∈ Catalog.standardKinds := by simp [Catalog.standardKinds]
  have succeeds : (exec (lower (Session.standard {}) "ShaderNodeMath" none arguments) b).1.toBool = true := by
    decide +kernel
  obtain ⟨result, c, h⟩ : ∃ result c,
      exec (lower (Session.standard {}) "ShaderNodeMath" none arguments) b = (.ok result, c) := by
    cases hrun : exec (lower (Session.standard {}) "ShaderNodeMath" none arguments) b with
    | mk outcome c =>
      rw [hrun] at succeeds
      cases outcome with
      | error e => cases succeeds
      | ok result => exact ⟨result, c, rfl⟩
  have plain : arguments.Plain := by
    intro name argument hget group
    have hmem : (name, argument) ∈ [("operation", _), ("value", _)] := get?_eq_some_iff.mp hget
    rw [mem_cons, mem_singleton] at hmem
    rcases hmem with heq | heq <;> cases heq <;> simp
  have spoken : ∀ id, id ∈ g.nodes.keys ∨ id ∈ g.links.keys → b.supply.Used id := by
    intro id hid
    rcases hid with hid | hid
    · obtain rfl : id = ⟨1⟩ := mem_singleton.mp hid
      exact .inl (by decide)
    · cases hid
  exact ⟨_, listed, rfl, result, c, h, lower_binds_arguments {} listed rfl plain rfl spoken h⟩

end Build

end NodeScript
