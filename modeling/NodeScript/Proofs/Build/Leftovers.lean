import NodeScript.Proofs.Build.Programs
import NodeScript.Proofs.Graph.Histories

/-!
# Arguments that are left over

What neither a property nor an input takes gives a default to the output of its name, or is only
noted. Here is what that does to the node.
-/

namespace NodeScript

open Build List

/-! ## Defaults of outputs -/

namespace Node

variable {node node' : Node} {name : String} {argument : Argument}

/-- Whether an output takes a default under the name. -/
def takesDefault (name : String) (port : Port) : Bool :=
  port.enabled && (port.default.isSome && snakeCase port.name = name)

/-- The node with an argument as the default of the output that takes it; without such an output it
stays as it is. -/
def giveDefault (node : Node) (name : String) (argument : Argument) : Except BuildError Node :=
  match node.outputs.find? (takesDefault name) with
  | none => .ok node
  | some port =>
    match argument.literal?.bind port.type.coerce? with
    | none => .error (.argumentShape name (.notLiteralOf port.type))
    | some value => .ok { node with
        outputs := updateFirst (takesDefault name) (fun port => { port with default := some value }) node.outputs }

theorem giveDefault_eq_ok : node.giveDefault name argument = .ok node' ↔
    ∃ value, (∀ port, node.outputs.find? (takesDefault name) = some port →
      argument.literal?.bind port.type.coerce? = some value) ∧
      node' = { node with
        outputs := updateFirst (takesDefault name)
          (fun port => { port with default := some value }) node.outputs } := by
  unfold giveDefault
  cases hfind : node.outputs.find? (takesDefault name) with
  | none =>
    simp only [updateFirst_of_find?_none hfind, Except.ok.injEq, reduceCtorEq, false_implies, implies_true, true_and]
    exact ⟨fun h => ⟨.int 0, h.symm⟩, fun ⟨_, h⟩ => h.symm⟩
  | some port =>
    dsimp only
    cases hvalue : argument.literal?.bind port.type.coerce? with
    | none => simp [hvalue]
    | some value =>
      simp only [Except.ok.injEq, Option.some.injEq, forall_eq', hvalue]
      exact ⟨fun h => ⟨value, rfl, h.symm⟩, fun ⟨_, hsame, h⟩ => by rw [hsame, h]⟩

theorem portIds_giveDefault (h : node.giveDefault name argument = .ok node') : node'.portIds = node.portIds := by
  obtain ⟨value, _, rfl⟩ := giveDefault_eq_ok.mp h
  have houtputs := @map_updateFirst _ _ (takesDefault name) (fun port : Port => { port with default := some value })
    Port.id (fun _ => rfl) node.outputs
  simp only [portIds, ports, map_append, houtputs]

/-- An output that takes a default is changed by its identity. -/
theorem updatePort_of_takes {port : Port} (distinct : node.portIds.Nodup)
    (h : node.outputs.find? (takesDefault name) = some port) (f : Port → Port) :
    node.updatePort port.id f = { node with outputs := updateFirst (takesDefault name) f node.outputs } := by
  have hids : (node.inputs.map Port.id ++ node.outputs.map Port.id).Nodup := by
    rw [← map_append]
    exact distinct
  obtain ⟨_, houtputs, hdisjoint⟩ := nodup_append.mp hids
  have hmem := mem_of_find?_eq_some h
  have hinputs : ¬ (node.inputs.any fun p => p.id = port.id) = true := by
    intro hany
    obtain ⟨input, hinput, hid⟩ := any_eq_true.mp hany
    exact hdisjoint input.id (mem_map_of_mem hinput) port.id (mem_map_of_mem hmem) (of_decide_eq_true hid)
  rw [updatePort, if_neg hinputs]
  revert houtputs h
  generalize node.outputs = outputs
  intro h houtputs
  congr 1
  induction outputs with
  | nil => rfl
  | cons first rest ih =>
    rw [map_cons, nodup_cons] at houtputs
    rw [find?_cons] at h
    cases htest : takesDefault name first with
    | true =>
      simp only [htest, Option.some.injEq] at h
      subst h
      simp [updateFirst, htest]
    | false =>
      simp only [htest] at h
      have hne : first.id ≠ port.id := fun heq =>
        houtputs.1 (heq ▸ mem_map_of_mem (mem_of_find?_eq_some h))
      simp only [updateFirst, htest, hne, decide_false, Bool.false_eq_true, if_false, cons.injEq, true_and]
      exact ih h houtputs.2

end Node

/-! ## Binding what is left over -/

namespace Build

variable {b : Build} {g : Graph} {id : NodeId} {node : Node}

theorem put_self (h : b.current? = some g) : b.put g = b := by
  obtain ⟨name, hscope, hget⟩ := exists_scope h
  rw [put_eq hscope, Store.set, OrderedMap.insert_self hget]

theorem exec_bindOutputDefault (hg : b.current? = some g) (hnode : g.node? id = some node)
    (distinct : node.portIds.Nodup) (name : String) (argument : Argument) :
    match node.giveDefault name argument with
    | .error e => exec (bindOutputDefault id name argument) b = (.error e, b)
    | .ok node' => ∃ used, exec (bindOutputDefault id name argument) b =
        (.ok used, b.put (g.updateNode id fun _ => node')) := by
  have hfind : (node.enabledOutputs.find? fun port => port.default.isSome && snakeCase port.name = name) =
      node.outputs.find? (Node.takesDefault name) := by
    rw [Node.enabledOutputs, find?_filter]
    refine congrArg (fun test => node.outputs.find? test) (funext fun port => ?_)
    rw [Node.takesDefault, Bool.decide_and, Bool.decide_eq_true, Bool.decide_eq_true]
  unfold bindOutputDefault Node.giveDefault
  rw [exec_bind_ok (exec_node_of hg hnode)]
  dsimp only
  rw [hfind]
  cases hport : node.outputs.find? (Node.takesDefault name) with
  | none =>
    refine ⟨false, ?_⟩
    rw [Graph.updateNode_self hnode, put_self hg]
    rfl
  | some port =>
    dsimp only
    cases argument.literal?.bind port.type.coerce? with
    | none => rfl
    | some value =>
      have hmem : port ∈ node.ports := mem_append_right _ (mem_of_find?_eq_some hport)
      refine ⟨true, ?_⟩
      rw [← Node.updatePort_of_takes distinct hport]
      exact exec_bind_ok (exec_setDefault hg hnode (Node.port?_of_mem distinct hmem) value)

theorem exec_bindRest (hg : b.current? = some g) (hnode : g.node? id = some node) (distinct : node.portIds.Nodup)
    (entries : List (String × Argument)) :
    match entries.foldlM (fun node e => node.giveDefault e.1 e.2) node with
    | .error e => ∃ c, exec (bindRest id entries) b = (.error e, c)
    | .ok node' => ∃ warnings, exec (bindRest id entries) b =
        (.ok (), (b.put (g.updateNode id fun _ => node')).withWarnings warnings) := by
  induction entries generalizing b g node with
  | nil =>
    refine ⟨b.warnings, ?_⟩
    rw [Graph.updateNode_self hnode, put_self hg]
    rfl
  | cons entry rest ih =>
    obtain ⟨name, argument⟩ := entry
    have hfirst := exec_bindOutputDefault hg hnode distinct name argument
    rw [foldlM_cons, bindRest]
    cases hgive : node.giveDefault name argument with
    | error e =>
      rw [hgive] at hfirst
      exact ⟨b, exec_bind_error hfirst⟩
    | ok node' =>
      rw [hgive] at hfirst
      obtain ⟨used, hfirst⟩ := hfirst
      let b₁ := b.put (g.updateNode id fun _ => node')
      have hg₁ : b₁.current? = some (g.updateNode id fun _ => node') := current?_put hg _
      have hnode₁ : (g.updateNode id fun _ => node').node? id = some node' := by
        rw [Graph.node?_updateNode, if_pos rfl, hnode]
        rfl
      have hdistinct : node'.portIds.Nodup := by
        rw [Node.portIds_giveDefault hgive]
        exact distinct
      -- Whether the argument was used or noted, the rest starts from the same build up to warnings.
      have hnext : ∃ warnings, exec (bindRest id ((name, argument) :: rest)) b =
          exec (bindRest id rest) (b₁.withWarnings warnings) := by
        rw [bindRest, exec_bind_ok hfirst]
        cases used with
        | true => exact ⟨b₁.warnings, rfl⟩
        | false =>
          exact ⟨b₁.warnings ++ [.unknownArgument name node'.kind], exec_bind_ok (exec_node_of hg₁ hnode₁)⟩
      obtain ⟨warnings, hnext⟩ := hnext
      have hput : ∀ node'', (b₁.withWarnings warnings).put
          ((g.updateNode id fun _ => node').updateNode id fun _ => node'') =
          (b.put (g.updateNode id fun _ => node'')).withWarnings warnings := by
        intro node''
        rw [put_withWarnings, put_put, Graph.updateNode_updateNode]
        rfl
      have hrest := @ih (b₁.withWarnings warnings) _ _ hg₁ hnode₁ hdistinct
      rw [← bindRest, hnext]
      simp only [hput] at hrest
      exact hrest

end Build

end NodeScript
