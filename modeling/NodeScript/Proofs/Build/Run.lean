import NodeScript.Build.Program
import NodeScript.Proofs.Graph.Sound

/-!
# Running builds

How the steps of building act on a build: what they read, where they fail and the build they leave
behind. A failed step leaves its build behind too.
-/

namespace NodeScript

variable {α β : Type}

theorem Store.get?_set (store : Store) (name other : String) (graph : Graph) :
    (store.set name graph).get? other = if other = name then some graph else store.get? other :=
  OrderedMap.get?_insert _ _ _ _

namespace Build

variable {id : NodeId} {n : Node} {portId : PortId} {p : Port} {name : String} {c : Build}

/-- The outcome of a step and the build it leaves behind. -/
def exec (m : BuildM α) (b : Build) : Except BuildError α × Build := m b

/-! ## Sequences -/

theorem exec_bind_ok {m : BuildM α} {f : α → BuildM β} {b' : Build} {a : α}
    (h : exec m b = (.ok a, b')) : exec (m >>= f) b = exec (f a) b' := by
  change (match exec m b with | (a, s) => ExceptT.bindCont f a s) = _
  rw [h]
  rfl

theorem exec_bind_error {m : BuildM α} {f : α → BuildM β} {b' : Build} {e : BuildError}
    (h : exec m b = (.error e, b')) : exec (m >>= f) b = (.error e, b') := by
  change (match exec m b with | (a, s) => ExceptT.bindCont f a s) = _
  rw [h]
  rfl

theorem exec_bind_eq_ok {m : BuildM α} {f : α → BuildM β} {r : β} :
    exec (m >>= f) b = (.ok r, c) ↔ ∃ a b', exec m b = (.ok a, b') ∧ exec (f a) b' = (.ok r, c) := by
  cases hm : exec m b with
  | mk result b' =>
    cases result with
    | error e =>
      rw [exec_bind_error hm]
      exact ⟨fun h => (by cases h), fun ⟨_, _, h, _⟩ => by cases h⟩
    | ok a =>
      rw [exec_bind_ok hm]
      exact ⟨fun h => ⟨a, b', rfl, h⟩, fun ⟨_, _, h, hnext⟩ => by cases h; exact hnext⟩

@[simp] theorem exec_pure (a : α) (b : Build) : exec (pure a) b = (.ok a, b) := rfl

@[simp] theorem exec_throw (e : BuildError) (b : Build) :
    exec (throw e : BuildM α) b = (.error e, b) := rfl

@[simp] theorem exec_get (b : Build) : exec get b = (.ok b, b) := rfl

@[simp] theorem exec_modify (f : Build → Build) (b : Build) : exec (modify f) b = (.ok (), f b) := rfl

/-- The build with another supply. -/
def withSupply (b : Build) (supply : Supply) : Build := { b with supply }

@[simp] theorem supply_withSupply (b : Build) (supply : Supply) : (b.withSupply supply).supply = supply := rfl

@[simp] theorem withSupply_withSupply (b : Build) (supply supply' : Supply) :
    (b.withSupply supply).withSupply supply' = b.withSupply supply' := rfl

@[simp] theorem exec_draw (step : StateM Supply α) (b : Build) :
    exec (draw step) b = (.ok (step b.supply).1, b.withSupply (step b.supply).2) := rfl

@[simp] theorem exec_ofExcept (r : Except BuildError α) (b : Build) : exec (ofExcept r) b = (r, b) := by
  cases r <;> rfl

/-! ## The active graph -/

/-- The graph that new nodes go into. -/
def current? (b : Build) : Option Graph := b.scopes.head?.bind b.store.get?

/-- The build with another active graph. -/
def put (b : Build) (graph : Graph) : Build :=
  match b.scopes with
  | name :: _ => { b with store := b.store.set name graph }
  | [] => b

variable {b : Build} {g : Graph}

theorem put_eq (h : b.scopes.head? = some name) (g : Graph) :
    b.put g = { b with store := b.store.set name g } := by
  unfold put
  cases hscopes : b.scopes with
  | nil =>
    rw [hscopes] at h
    cases h
  | cons first rest =>
    rw [hscopes] at h
    cases h
    rfl

@[simp] theorem scopes_put (b : Build) (g : Graph) : (b.put g).scopes = b.scopes := by
  unfold put
  split <;> rfl

@[simp] theorem supply_put (b : Build) (g : Graph) : (b.put g).supply = b.supply := by
  unfold put
  split <;> rfl

theorem put_put (b : Build) (g g' : Graph) : (b.put g).put g' = b.put g' := by
  cases hscopes : b.scopes with
  | nil => simp [put, hscopes]
  | cons name rest => simp [put, hscopes, Store.set, OrderedMap.insert_insert]

theorem withSupply_put (b : Build) (g : Graph) (supply : Supply) :
    (b.put g).withSupply supply = (b.withSupply supply).put g := by
  cases hscopes : b.scopes with
  | nil => simp [put, hscopes, withSupply]
  | cons name rest => simp [put, hscopes, withSupply]

/-- The build with other warnings. -/
def withWarnings (b : Build) (warnings : List Warning) : Build := { b with warnings }

theorem put_withWarnings (b : Build) (warnings : List Warning) (g : Graph) :
    (b.withWarnings warnings).put g = (b.put g).withWarnings warnings := by
  cases hscopes : b.scopes with
  | nil => simp [put, hscopes, withWarnings]
  | cons name rest => simp [put, hscopes, withWarnings]

/-- From this build, the step does the same whatever warnings have been noted. -/
def Mute (b : Build) (m : BuildM α) : Prop :=
  ∀ warnings, ∃ warnings', exec m (b.withWarnings warnings) = ((exec m b).1, (exec m b).2.withWarnings warnings')

section

variable (h : b.current? = some g) {session : Session} {kind : String} {k : NodeKind}
include h

theorem exists_scope :
    ∃ name, b.scopes.head? = some name ∧ b.store.get? name = some g := by
  unfold current? at h
  cases hscope : b.scopes.head? with
  | none => simp [hscope] at h
  | some name => exact ⟨name, rfl, by simpa [hscope] using h⟩

omit h in
theorem exec_active (h : b.scopes.head? = some name) : exec active b = (.ok name, b) := by
  unfold active
  rw [exec_bind_ok (exec_get b)]
  cases hscopes : b.scopes with
  | nil => simp [hscopes] at h
  | cons first rest =>
    rw [hscopes] at h
    cases h
    rfl

theorem exec_graph : exec graph b = (.ok g, b) := by
  obtain ⟨name, hscope, hget⟩ := exists_scope h
  unfold graph
  rw [exec_bind_ok (exec_active hscope), exec_bind_ok (exec_get b), hget]
  rfl

omit h in
theorem exec_graph_eq_ok : exec graph b = (.ok g, c) ↔ b.current? = some g ∧ c = b := by
  cases hcurrent : b.current? with
  | some g' =>
    rw [exec_graph hcurrent, Prod.mk.injEq, Except.ok.injEq, Option.some.injEq]
    exact ⟨fun h => ⟨h.1, h.2.symm⟩, fun h => ⟨h.1, h.2.symm⟩⟩
  | none =>
    refine ⟨fun h => ?_, fun h => by cases h.1⟩
    unfold graph active at h
    rw [bind_assoc, exec_bind_ok (exec_get b)] at h
    cases hscopes : b.scopes with
    | nil =>
      rw [hscopes] at h
      cases h
    | cons name rest =>
      have hmissing : b.store.get? name = none := by rwa [current?, hscopes] at hcurrent
      rw [hscopes] at h
      dsimp only at h
      rw [pure_bind, exec_bind_ok (exec_get b), hmissing] at h
      cases h

theorem exec_putGraph (g' : Graph) : exec (putGraph g') b = (.ok (), b.put g') := by
  obtain ⟨name, hscope, _⟩ := exists_scope h
  unfold putGraph
  rw [exec_bind_ok (exec_active hscope), put_eq hscope]
  rfl

theorem current?_put (g' : Graph) : (b.put g').current? = some g' := by
  obtain ⟨name, hscope, _⟩ := exists_scope h
  rw [put_eq hscope, current?]
  simp only [hscope, Option.bind_some]
  exact OrderedMap.get?_insert_self

theorem exec_node (id : NodeId) : exec (node id) b =
    (match g.node? id with | some n => .ok n | none => .error (.link (.nodeNotFound id)), b) := by
  unfold node
  rw [exec_bind_ok (exec_graph h)]
  cases g.node? id <;> rfl

theorem exec_node_of (hn : g.node? id = some n) : exec (node id) b = (.ok n, b) := by
  rw [exec_node h, hn]

theorem exec_node_none (hn : g.node? id = none) :
    exec (node id) b = (.error (.link (.nodeNotFound id)), b) := by
  rw [exec_node h, hn]

omit h in
theorem exec_node_eq_ok : exec (node id) b = (.ok n, c) ↔
    ∃ g, b.current? = some g ∧ g.node? id = some n ∧ c = b := by
  unfold node
  rw [exec_bind_eq_ok]
  constructor
  · rintro ⟨g, b', hgraph, h⟩
    obtain ⟨hg, rfl⟩ := exec_graph_eq_ok.mp hgraph
    cases hnode : g.node? id with
    | none =>
      rw [hnode] at h
      cases h
    | some found =>
      rw [hnode] at h
      cases h
      exact ⟨g, hg, hnode, rfl⟩
  · rintro ⟨g, hg, hnode, rfl⟩
    refine ⟨g, c, exec_graph hg, ?_⟩
    rw [hnode]
    rfl

theorem exec_putNode (id : NodeId) (n : Node) :
    exec (putNode id n) b = (.ok (), b.put (g.updateNode id fun _ => n)) := by
  unfold putNode
  rw [exec_bind_ok (exec_graph h), exec_putGraph h]

theorem exec_setProperty (id : NodeId) (name : String) (value : PropertyValue) :
    exec (setProperty id name value) b =
      match g.node? id with
      | none => (.error (.link (.nodeNotFound id)), b)
      | some n =>
        match n.setProperty name value with
        | .error e => (.error (.property e), b)
        | .ok n' => (.ok (), b.put (g.updateNode id fun _ => n')) := by
  unfold setProperty
  cases hn : g.node? id with
  | none => exact exec_bind_error (exec_node_none h hn)
  | some n =>
    rw [exec_bind_ok (exec_node_of h hn)]
    dsimp only
    cases n.setProperty name value with
    | error e => rfl
    | ok n' => exact exec_putNode h id n'

theorem exec_port (hn : g.node? id = some n)
    (portId : PortId) : exec (port id portId) b =
      (match n.port? portId with | some p => .ok p | none => .error (.link (.portNotFound portId)), b) := by
  unfold port
  rw [exec_bind_ok (exec_node_of h hn)]
  cases n.port? portId <;> rfl

theorem exec_port_of (hn : g.node? id = some n) (hp : n.port? portId = some p) :
    exec (port id portId) b = (.ok p, b) := by
  rw [exec_port h hn, hp]

theorem exec_setDefault (hn : g.node? id = some n) (hp : n.port? portId = some p)
    (value : Literal) :
    exec (setDefault id portId value) b =
      (.ok (), b.put (g.updateNode id fun _ => n.updatePort portId fun p => { p with default := some value })) := by
  unfold setDefault
  rw [exec_bind_ok (exec_port_of h hn hp), exec_bind_ok (exec_node_of h hn)]
  exact exec_putNode h id _

omit h in
theorem exec_expr (hscope : b.scopes.head? = some name) (h : b.current? = some g)
    (hn : g.node? id = some n) (hp : n.port? portId = some p) :
    exec (expr id portId) b = (.ok { graph := name, node := id, port := portId, type := p.type }, b) := by
  unfold expr
  rw [exec_bind_ok (exec_active hscope), exec_bind_ok (exec_port_of h hn hp)]
  rfl

omit h in
theorem current?_withSupply (b : Build) (supply : Supply) : (b.withSupply supply).current? = b.current? := rfl

theorem exec_addNode_of
    (hk : session.catalog.get? kind = some k) : exec (addNode session kind) b = (.ok (Node.ofKind k b.supply).1.id,
      (b.withSupply (g.addNode (Node.ofKind k b.supply).1 (Node.ofKind k b.supply).2).2).put
        (g.addNode (Node.ofKind k b.supply).1 (Node.ofKind k b.supply).2).1) := by
  have hcurrent : ∀ s, (b.withSupply s).current? = some g := fun _ => h
  unfold addNode
  rw [hk]
  dsimp only
  rw [exec_bind_ok (exec_draw _ b), exec_bind_ok (exec_graph (hcurrent _)), exec_bind_ok (exec_draw _ _)]
  exact exec_bind_ok (exec_putGraph (hcurrent _) _)

theorem exec_addNode (hk : session.catalog.get? kind = some k) (inner : k.role.isBoundary = false) :
    exec (addNode session kind) b = (.ok (Node.ofKind k b.supply).1.id,
      (b.withSupply (Node.ofKind k b.supply).2).put (g.withNode (Node.ofKind k b.supply).1)) := by
  have hrole : (Node.ofKind k b.supply).1.role.isBoundary = false := inner
  rw [exec_addNode_of h hk, Graph.addNode, if_neg (by rw [hrole]; simp)]
  rfl

end

theorem connect_apply (g : Graph) (fromNode : NodeId) (fromPort : PortId) (toNode : NodeId) (toPort : PortId)
    (s : Supply) : g.connect fromNode fromPort toNode toPort s =
      match g.checkLink fromNode fromPort toNode toPort with
      | .error e => (.error e, s)
      | .ok () =>
        let link : Link := ⟨(Supply.fresh s).1, fromNode, fromPort, toNode, toPort⟩
        (.ok (g.withLink link, link), (Supply.fresh s).2) := by
  unfold Graph.connect
  cases g.checkLink fromNode fromPort toNode toPort <;> rfl

theorem exec_link (hscope : b.scopes.head? = some name) (h : b.current? = some g) {source : Expr}
    (hgraph : source.graph = name) (id : NodeId) (portId : PortId) : exec (link source id portId) b =
      match g.checkLink source.node source.port id portId with
      | .error e => (.error (.link e), b)
      | .ok () =>
        let link : Link := ⟨(Supply.fresh b.supply).1, source.node, source.port, id, portId⟩
        (.ok (), (b.withSupply (Supply.fresh b.supply).2).put (g.withLink link)) := by
  unfold link
  rw [exec_bind_ok (exec_active hscope), if_neg (by simpa using hgraph), exec_bind_ok (exec_graph h),
    exec_bind_ok (exec_draw _ b), connect_apply]
  cases g.checkLink source.node source.port id portId with
  | error e => rfl
  | ok _ => exact exec_putGraph ((current?_withSupply b _).trans h) _

end Build

end NodeScript
