import NodeScript.Proofs.Build.Run

/-!
# Enabling under assignments

A node of a kind keeps its ports whatever is assigned to its properties. Which of them are enabled
follows from the values that the properties have, and not from the assignments that led there. An
assignment that is rejected leaves the node as it was.
-/

namespace NodeScript

open List

variable {calls : List (String × PropertyValue)}

/-- The properties after an assignment. The first one of the name takes the value if it accepts
it. -/
def Property.assign (properties : List Property) (call : String × PropertyValue) : List Property :=
  match properties.find? fun property => property.decl.name = call.1 with
  | some property =>
    if property.decl.accepts call.2 then
      Node.updateFirst (fun property => property.decl.name = call.1)
        (fun property => { property with value := call.2 })
        properties
    else properties
  | none => properties

/-- What a property holds after some assignments: its default, or an assigned value that it
accepts. -/
def Property.Reached (calls : List (String × PropertyValue)) (decl : PropertyDecl) (property : Property) : Prop :=
  property.decl = decl ∧
    (property.value = decl.default ∨ decl.accepts property.value = true ∧ (decl.name, property.value) ∈ calls)

/-- A port of a kind as it stands in a node: enabled as its condition says under the chosen cases,
and without a condition as in the kind. -/
def Port.Stands (chosen : String → Option String) (port port' : Port) : Prop :=
  port'.toSocket = { port.toSocket with enabled := port.enabledUnder chosen }

/-- The port with another identity. -/
def Port.rename (f : Identity → Identity) (port : Port) : Port := { port with id := f port.id }

namespace Node

variable {node : Node} {f : Identity → Identity} {properties : List Property} {decls : List PropertyDecl}

/-- The node with other properties, and its ports enabled under them. -/
def withProperties (node : Node) (properties : List Property) : Node := { node with properties }.refresh

theorem withProperties_withProperties (node : Node) (properties properties' : List Property) :
    (node.withProperties properties).withProperties properties' = node.withProperties properties' := by
  have hport : ∀ (chosen chosen' : String → Option String) (port : Port),
      refreshPort chosen' (refreshPort chosen port) = refreshPort chosen' port := by
    intro chosen chosen' port
    unfold refreshPort
    cases hwhen : port.enabledWhen with
    | none => simp only [hwhen]
    | some condition => rfl
  simp only [withProperties, refresh, map_map, Function.comp_def, hport]
  rfl

theorem fresh_eq_withProperties (kind : NodeKind) (id : NodeId) (inputs outputs : List Port) :
    fresh kind id inputs outputs = withProperties
      { id, inputs, outputs, kind := kind.id, name := kind.name, role := kind.role, properties := [] }
      (kind.properties.map fun decl => ⟨decl, decl.default⟩) := rfl

theorem withProperties_ofKind (kind : NodeKind) (s : Supply) :
    (ofKind kind s).1.withProperties (kind.properties.map fun decl => ⟨decl, decl.default⟩) = (ofKind kind s).1 := by
  obtain ⟨id, inputs, outputs, _, _, _, heq⟩ := exists_ofKind kind s
  rw [heq, fresh_eq_withProperties]
  exact withProperties_withProperties _ _ _

/-- Assign a property; where that is rejected the node stays as it is. -/
def assign (node : Node) (call : String × PropertyValue) : Node :=
  match node.setProperty call.1 call.2 with
  | .ok node' => node'
  | .error _ => node

def assignAll (node : Node) (calls : List (String × PropertyValue)) : Node := calls.foldl assign node

/-- An assignment has no effect beyond the properties. -/
theorem assign_withProperties (node : Node) (properties : List Property) (call : String × PropertyValue) :
    (node.withProperties properties).assign call = node.withProperties (Property.assign properties call) := by
  have hsame : (node.withProperties properties).properties = properties := rfl
  unfold assign setProperty Property.assign
  rw [hsame]
  cases properties.find? fun property => property.decl.name = call.1 with
  | none => rfl
  | some property =>
    by_cases haccepts : property.decl.accepts call.2 = true
    · simp only [haccepts, if_true]
      exact node.withProperties_withProperties properties _
    · simp only [haccepts, if_false, Bool.false_eq_true]

theorem assignAll_withProperties (node : Node) (properties : List Property) :
    (node.withProperties properties).assignAll calls =
      node.withProperties (calls.foldl Property.assign properties) := by
  induction calls generalizing properties with
  | nil => rfl
  | cons call rest ih =>
    exact (congrArg (assignAll · rest) (node.assign_withProperties properties call)).trans (ih _)

theorem reached_assign (call : String × PropertyValue) (h : Forall₂ (Property.Reached calls) decls properties) :
    Forall₂ (Property.Reached (calls ++ [call])) decls (Property.assign properties call) := by
  have hmore : Forall₂ (Property.Reached (calls ++ [call])) decls properties := Forall₂.imp (fun _ _ hreached =>
    ⟨hreached.1, hreached.2.imp_right fun hassigned => ⟨hassigned.1, mem_append_left _ hassigned.2⟩⟩) h
  unfold Property.assign
  split
  next property hfind =>
    split
    next haccepts =>
      refine forall₂_updateFirst hmore fun decl found hreached hfound => ?_
      obtain rfl : property = found := Option.some.inj (hfind.symm.trans hfound)
      have hname : property.decl.name = call.1 := by simpa using find?_some hfind
      refine ⟨hreached.1, Or.inr ⟨hreached.1 ▸ haccepts, mem_append_right _ ?_⟩⟩
      rw [← hreached.1, hname]
      exact mem_singleton_self _
    next => exact hmore
  next => exact hmore

theorem reached_assignAll
    (h : Forall₂ (Property.Reached calls) decls properties) (calls' : List (String × PropertyValue)) :
    Forall₂ (Property.Reached (calls ++ calls')) decls (calls'.foldl Property.assign properties) := by
  induction calls' generalizing calls properties with
  | nil => rwa [append_nil]
  | cons call rest ih =>
    rw [append_cons]
    exact ih (reached_assign call h)

theorem decls_of_reached
    (h : Forall₂ (Property.Reached calls) decls properties) : properties.map Property.decl = decls := by
  induction h with
  | nil => rfl
  | cons hreached _ ih => rw [map_cons, hreached.1, ih]

theorem stands_refreshPort {ports ports' : List Port} (chosen : String → Option String)
    (h : ports'.map Port.toSocket = ports.map Port.toSocket) :
    Forall₂ (Port.Stands chosen) ports (ports'.map (refreshPort chosen)) := by
  have hsockets : Forall₂ (fun port port' => Port.toSocket port' = Port.toSocket port) ports ports' := by
    have heq := forall₂_eq_eq_eq ▸ h.symm
    exact Forall₂.imp (fun _ _ => Eq.symm) (forall₂_map_left_iff.mp (forall₂_map_right_iff.mp heq))
  refine forall₂_map_right_iff.mpr (Forall₂.imp (fun port port' hsocket => ?_) hsockets)
  rw [Port.Stands, refreshPort_eq, ← hsocket]

/-- The node with other identities. -/
def rename (f : Identity → Identity) (node : Node) : Node :=
  { node with
    id := f node.id
    inputs := node.inputs.map (Port.rename f)
    outputs := node.outputs.map (Port.rename f)
    pairedOutput := node.pairedOutput.map f }

theorem refreshPort_rename (chosen : String → Option String) (port : Port) :
    refreshPort chosen (Port.rename f port) = (refreshPort chosen port).rename f := by
  obtain ⟨⟨_, _, _, _, _, _, _, enabledWhen, _⟩, _⟩ := port
  cases enabledWhen <;> rfl

theorem refresh_rename (node : Node) : (node.rename f).refresh = node.refresh.rename f := by
  have hports : ∀ (chosen : String → Option String) (ports : List Port),
      (ports.map (Port.rename f)).map (refreshPort chosen) =
        (ports.map (refreshPort chosen)).map (Port.rename f) := by
    intro chosen ports
    rw [map_map, map_map]
    exact map_congr_left fun port _ => refreshPort_rename chosen port
  simp only [refresh, rename, property?]
  rw [hports, hports]

/-- Ports that show the same sockets are the same up to identities. -/
theorem map_rename_const {ports ports' : List Port} (id : Identity)
    (h : ports'.map Port.toSocket = ports.map Port.toSocket) :
    ports'.map (Port.rename fun _ => id) = ports.map (Port.rename fun _ => id) := by
  have hsocket : ∀ ports : List Port, ports.map (Port.rename fun _ => id) =
      (ports.map Port.toSocket).map fun socket => (⟨socket, id⟩ : Port) := by
    intro ports
    rw [map_map]
    rfl
  rw [hsocket, hsocket, h]

/-- Properties that are declared alike are the same if they have the same values. -/
theorem eq_of_values {properties' : List Property}
    (hdecls : properties'.map Property.decl = properties.map Property.decl)
    (hvalues : properties'.map Property.value = properties.map Property.value) : properties' = properties := by
  have hzip : ∀ properties : List Property,
      zipWith Property.mk (properties.map Property.decl) (properties.map Property.value) = properties := by
    intro properties
    rw [zipWith_map, zipWith_self]
    exact map_id _
  rw [← hzip properties', hdecls, hvalues, hzip]

/-- In a build a rejected assignment changes nothing. An accepted one gives the value to the first
property of the name and enables the ports under it. -/
theorem exec_setProperty_assign {b : Build} {g : Graph} {id : NodeId} (hg : b.current? = some g)
    (hnode : g.node? id = some node) (name : String) (value : PropertyValue) :
    Build.exec (Build.setProperty id name value) b =
      match node.properties.find? fun property => property.decl.name = name with
      | none => (.error (.property (.unknown node.name name)), b)
      | some property =>
        if property.decl.accepts value then
          (.ok (),
            b.put (g.updateNode id fun _ => node.withProperties (Property.assign node.properties (name, value))))
        else (.error (.property (.invalidValue name value)), b) := by
  rw [Build.exec_setProperty hg, hnode]
  dsimp only
  unfold setProperty Property.assign
  cases node.properties.find? fun property => property.decl.name = name with
  | none => rfl
  | some property =>
    cases haccepts : property.decl.accepts value with
    | false => simp [haccepts]
    | true =>
      simp only [haccepts, if_true]
      rfl

/-- What assignments make of a new node, in terms of its properties alone. -/
theorem exists_assignAll (kind : NodeKind) (s : Supply) (calls : List (String × PropertyValue)) :
    ∃ id inputs outputs properties, inputs.map Port.toSocket = kind.inputs.map Port.toSocket ∧
      outputs.map Port.toSocket = kind.outputs.map Port.toSocket ∧
      Forall₂ (Property.Reached calls) kind.properties properties ∧
      (ofKind kind s).1.assignAll calls = withProperties
        { id, inputs, outputs, kind := kind.id, name := kind.name,
          role := kind.role, properties := [] } properties := by
  obtain ⟨id, inputs, outputs, hinputs, houtputs, _, hkind⟩ := exists_ofKind kind s
  rw [fresh_eq_withProperties] at hkind
  refine ⟨id, inputs, outputs, _, hinputs, houtputs, ?_,
    (congrArg (assignAll · calls) hkind).trans (assignAll_withProperties _ _)⟩
  refine nil_append calls ▸ reached_assignAll (forall₂_map_right_iff.mpr ?_) calls
  exact forall₂_same.mpr fun decl _ => ⟨rfl, Or.inl rfl⟩

/-- Whatever is assigned to the properties of a new node, in any order and with any names and
values: its ports are those of the kind, enabled as the properties then say; the properties hold
defaults or assigned values that they accept; one more assignment is accepted exactly if the
property of its name accepts the value, which it then takes, and a build in which it is rejected
stays as it is; and the node is determined, up to identities, by the values of its properties. -/
theorem enabling_follows_properties (kind : NodeKind) (s : Supply) (calls : List (String × PropertyValue)) :
    let node := (ofKind kind s).1.assignAll calls
    (Forall₂ (Port.Stands node.chosen) kind.inputs node.inputs ∧
      Forall₂ (Port.Stands node.chosen) kind.outputs node.outputs) ∧
    Forall₂ (Property.Reached calls) kind.properties node.properties ∧
    (∀ (b : Build) (g : Graph) (id : NodeId) (name : String) (value : PropertyValue),
      b.current? = some g → g.node? id = some node → Build.exec (Build.setProperty id name value) b =
        match node.properties.find? fun property => property.decl.name = name with
        | none => (.error (.property (.unknown node.name name)), b)
        | some property =>
          if property.decl.accepts value then
            (.ok (),
              b.put (g.updateNode id fun _ => node.withProperties (Property.assign node.properties (name, value))))
          else (.error (.property (.invalidValue name value)), b)) ∧
    ∀ s' calls', ((ofKind kind s').1.assignAll calls').properties.map Property.value =
      node.properties.map Property.value → ∀ id,
        ((ofKind kind s').1.assignAll calls').rename (fun _ => id) = node.rename fun _ => id := by
  intro node
  obtain ⟨id, inputs, outputs, properties, hinputs, houtputs, hreached, hnode⟩ := exists_assignAll kind s calls
  change node = _ at hnode
  refine ⟨?_, ?_, fun b g id name value hg hfound => exec_setProperty_assign hg hfound name value, ?_⟩
  · rw [hnode]
    exact ⟨stands_refreshPort _ hinputs, stands_refreshPort _ houtputs⟩
  · rw [hnode]
    exact hreached
  · intro s' calls' hvalues other
    obtain ⟨id', inputs', outputs', properties', hinputs', houtputs', hreached', hnode'⟩ :=
      exists_assignAll kind s' calls'
    rw [hnode, hnode'] at hvalues
    rw [hnode, hnode']
    obtain rfl : properties' = properties :=
      eq_of_values ((decls_of_reached hreached').trans (decls_of_reached hreached).symm) hvalues
    rw [withProperties, withProperties, ← refresh_rename, ← refresh_rename]
    simp only [rename, map_rename_const other (hinputs'.trans hinputs.symm),
      map_rename_const other (houtputs'.trans houtputs.symm)]

end Node

end NodeScript
