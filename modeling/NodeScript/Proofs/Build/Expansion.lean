import NodeScript.Proofs.Build.Boundaries

/-!
# What a body receives

A signature is laid out in slots: its plain parameters and the fields of its groups, in the order of
declaration. Every slot has an entry of the interface, an output of the source, and a place among
the inputs of the body. No two slots have the same place, so the body receives the output of each.
-/

namespace NodeScript

open List OrderedMap

variable {classes : SocketClasses} {params : List ResolvedParam} {names : List String} {α : Type}

/-! ## Slots of a signature -/

/-- The name under which the body finds a parameter or its group. -/
def ResolvedParam.outer (param : ResolvedParam) : String := param.group.getD param.key

/-- Two parameters that do not get in each other's way: they have different names, or are fields of
one group with different names. -/
def ResolvedParam.Apart (param other : ResolvedParam) : Prop :=
  param.outer ≠ other.outer ∨ param.group.isSome = true ∧ param.group = other.group ∧ param.key ≠ other.key

namespace Signature

/-- The parameters of a signature in order, each with its group and with its name on the
interface. -/
def slots (signature : Signature) : List (Option String × Param × String) :=
  signature.flatMap fun
    | .param param => [(none, param, titleCase param.name)]
    | .group group => group.fields.map fun field => (some group.name, field, fieldName group field)

/-- A parameter as it has been resolved for a slot. -/
def Fills (classes : SocketClasses) (slot : Option String × Param × String) (resolved : ResolvedParam) : Prop :=
  resolved.group = slot.1 ∧ resolved.key = slot.2.1.name ∧
    slot.2.1.resolve slot.2.2 classes = .ok resolved.declaration

theorem fills_fields {group : ParamGroup} {fields : List Param}
    (h : resolveFields classes group fields names = .ok params) :
    Forall₂ (Fills classes) (fields.map fun field => (some group.name, field, fieldName group field)) params ∧
      params.Pairwise ResolvedParam.Apart ∧ ∀ param ∈ params, param.group = some group.name ∧ param.key ∉ names := by
  induction fields generalizing names params with
  | nil =>
    cases h
    exact ⟨.nil, .nil, fun _ h => absurd h not_mem_nil⟩
  | cons field rest ih =>
    simp only [resolveFields, Except.bind_eq_ok] at h
    obtain ⟨names', htake, declaration, hdeclaration, others, hothers, h⟩ := h
    cases h
    obtain ⟨hnew, rfl⟩ := takeName_eq_ok htake
    obtain ⟨fills, apart, hgroup⟩ := ih hothers
    refine ⟨.cons ⟨rfl, rfl, hdeclaration⟩ fills,
      .cons (fun other hother => ?_) apart, forall_mem_cons.mpr ⟨⟨rfl, hnew⟩, ?_⟩⟩
    · obtain ⟨heq, hkey⟩ := hgroup other hother
      exact Or.inr ⟨rfl, heq.symm, fun hsame => hkey (hsame ▸ mem_cons_self)⟩
    · exact fun other hother => ⟨(hgroup other hother).1, fun hmem => (hgroup other hother).2 (.tail _ hmem)⟩

theorem fills_entries {signature : Signature} (h : resolveEntries classes signature names = .ok params) :
    Forall₂ (Fills classes) signature.slots params ∧
      params.Pairwise ResolvedParam.Apart ∧ ∀ param ∈ params, param.outer ∉ names := by
  induction signature generalizing names params with
  | nil =>
    cases h
    exact ⟨.nil, .nil, fun _ h => absurd h not_mem_nil⟩
  | cons entry rest ih =>
    cases entry with
    | param param =>
      simp only [resolveEntries, Except.bind_eq_ok] at h
      obtain ⟨declaration, hdeclaration, names', htake, others, hothers, h⟩ := h
      cases h
      obtain ⟨hnew, rfl⟩ := takeName_eq_ok htake
      obtain ⟨fills, apart, houter⟩ := ih hothers
      refine ⟨.cons ⟨rfl, rfl, hdeclaration⟩ fills, .cons (fun other hother => Or.inl fun hsame => ?_) apart,
        forall_mem_cons.mpr ⟨hnew, fun other hother hmem => houter other hother (.tail _ hmem)⟩⟩
      exact houter other hother (hsame ▸ mem_cons_self)
    | group group =>
      simp only [resolveEntries, Except.bind_eq_ok] at h
      obtain ⟨names', htake, fields, hfields, others, hothers, h⟩ := h
      cases h
      obtain ⟨hnew, rfl⟩ := takeName_eq_ok htake
      obtain ⟨fills, apart, hgroup⟩ := fills_fields hfields
      obtain ⟨fills', apart', houter⟩ := ih hothers
      have hfield : ∀ field ∈ fields, field.outer = group.name := fun field hfield => by
        rw [ResolvedParam.outer, (hgroup field hfield).1]
        rfl
      refine ⟨rel_append fills fills', pairwise_append.mpr ⟨apart, apart', fun field hmem other hother => Or.inl ?_⟩,
        forall_mem_append.mpr ⟨fun field hmem => hfield field hmem ▸ hnew, ?_⟩⟩
      · exact fun hsame => houter other hother (hsame ▸ hfield field hmem ▸ mem_cons_self)
      · exact fun other hother hmem => houter other hother (.tail _ hmem)

end Signature

/-! ## Inputs -/

namespace Inputs

variable {inputs : Inputs} {param other : ResolvedParam} {value : Expr} {given : List (ResolvedParam × Expr)}

/-- The body finds a value under the name of a parameter, or of a field in its group. -/
def Gives (inputs : Inputs) (group : Option String) (key : String) (value : Expr) : Prop :=
  match group with
  | none => inputs.value key = .ok value
  | some name => ∃ found, inputs.group name = .ok found ∧ found.fields.get? key = some value

/-- The inputs with the value of one more parameter. -/
def receive (inputs : Inputs) (given : ResolvedParam × Expr) : Inputs :=
  match given.1.group with
  | some group => inputs.addField group given.1.key given.2
  | none => inputs.insert given.1.key (.value given.2)

/-- Where the fields of the parameter's group belong there is no plain value. -/
def Clear (inputs : Inputs) (param : ResolvedParam) : Prop :=
  ∀ group, param.group = some group → ∀ value, inputs.get? group ≠ some (.value value)

theorem value_eq_ok {name : String} : inputs.value name = .ok value ↔ inputs.get? name = some (.value value) := by
  unfold Inputs.value
  split
  next found heq => simp [heq]
  next hnot => simpa using hnot value

theorem group_eq_ok {name : String} {found : GroupValue} :
    inputs.group name = .ok found ↔ inputs.get? name = some (.group found) := by
  unfold Inputs.group
  split
  next found heq => simp [heq]
  next hnot => simpa using hnot found

/-- A field is put into its group, which is made for the first of them. -/
theorem exists_addField {group : String} (clear : ∀ value, inputs.get? group ≠ some (.value value)) (field : String)
    (value : Expr) : ∃ found, (inputs.addField group field value).get? group = some (.group found) ∧
      found.fields.get? field = some value ∧ ∀ old, inputs.get? group = some (.group old) →
        ∀ key, key ≠ field → found.fields.get? key = old.fields.get? key := by
  unfold addField
  cases hget : inputs.get? group with
  | none =>
    dsimp only
    rw [get?_insert_self]
    exact ⟨_, rfl, get?_insert_self, nofun⟩
  | some input =>
    cases input with
    | value value => exact absurd hget (clear value)
    | group old =>
      dsimp only
      rw [get?_insert_self]
      refine ⟨_, rfl, get?_insert_self, fun _ hold key hne => ?_⟩
      cases hold
      exact get?_insert_of_ne hne

theorem get?_receive_of_ne {name : String} (hne : name ≠ param.outer) (value : Expr) :
    (inputs.receive (param, value)).get? name = inputs.get? name := by
  unfold receive
  unfold ResolvedParam.outer at hne
  cases hgroup : param.group with
  | none =>
    rw [hgroup] at hne
    exact get?_insert_of_ne hne
  | some group =>
    rw [hgroup] at hne
    dsimp only
    unfold addField
    split
    · exact get?_insert_of_ne hne
    · exact get?_insert_of_ne hne
    · rfl

theorem gives_receive (clear : inputs.Clear param) (value : Expr) :
    (inputs.receive (param, value)).Gives param.group param.key value := by
  unfold Gives receive
  cases hgroup : param.group with
  | none => exact value_eq_ok.mpr get?_insert_self
  | some group =>
    obtain ⟨found, hfound, hfield, _⟩ := exists_addField (clear group hgroup) param.key value
    exact ⟨found, group_eq_ok.mpr hfound, hfield⟩

theorem Gives.congr {inputs' : Inputs} (h : inputs.Gives param.group param.key value)
    (heq : inputs'.get? param.outer = inputs.get? param.outer) : inputs'.Gives param.group param.key value := by
  unfold Gives at h ⊢
  unfold ResolvedParam.outer at heq
  cases hgroup : param.group with
  | none =>
    rw [hgroup] at h heq
    exact value_eq_ok.mpr (heq.trans (value_eq_ok.mp h))
  | some group =>
    rw [hgroup] at h heq
    obtain ⟨found, hfound, hfield⟩ := h
    exact ⟨found, group_eq_ok.mpr (heq.trans (group_eq_ok.mp hfound)), hfield⟩

/-- The value of another parameter changes nothing. -/
theorem Gives.receive (h : inputs.Gives param.group param.key value) (apart : param.Apart other) (given : Expr) :
    (inputs.receive (other, given)).Gives param.group param.key value := by
  rcases apart with hne | ⟨hsome, hsame, hkey⟩
  · exact h.congr (get?_receive_of_ne hne given)
  · obtain ⟨group, hgroup⟩ := Option.isSome_iff_exists.mp hsome
    rw [hgroup] at h ⊢
    obtain ⟨old, hold, hfield⟩ := h
    have hget := group_eq_ok.mp hold
    obtain ⟨found, hfound, _, hkept⟩ := exists_addField (fun value => by rw [hget]; exact nofun) other.key given
    unfold Inputs.receive
    rw [← hsame, hgroup]
    exact ⟨found, group_eq_ok.mpr hfound, (hkept old hget param.key hkey).trans hfield⟩

/-- A field that is put into its group does not stand in the way of another parameter. -/
theorem Clear.receive (h : inputs.Clear param) (apart : other.Apart param) (given : Expr) :
    (inputs.receive (other, given)).Clear param := by
  intro group hgroup value
  rcases apart with hne | ⟨_, hsame, _⟩
  · have houter : param.outer = group := by
      rw [ResolvedParam.outer, hgroup]
      rfl
    rw [get?_receive_of_ne (houter ▸ hne.symm)]
    exact h group hgroup value
  · obtain ⟨found, hfound, _⟩ := exists_addField (h group hgroup) other.key given
    unfold Inputs.receive
    rw [hsame, hgroup]
    dsimp only
    rw [hfound]
    exact nofun

theorem Gives.foldl (h : inputs.Gives param.group param.key value) (apart : ∀ pair ∈ given, param.Apart pair.1) :
    (given.foldl Inputs.receive inputs).Gives param.group param.key value := by
  induction given generalizing inputs with
  | nil => exact h
  | cons first rest ih =>
    obtain ⟨hfirst, hrest⟩ := forall_mem_cons.mp apart
    exact ih (h.receive hfirst first.2) hrest

/-- Parameters that are apart from each other all find their values. -/
theorem gives_foldl (apart : given.Pairwise fun pair later => pair.1.Apart later.1)
    (clear : ∀ pair ∈ given, inputs.Clear pair.1) :
    ∀ pair ∈ given, (given.foldl receive inputs).Gives pair.1.group pair.1.key pair.2 := by
  induction given generalizing inputs with
  | nil => exact fun _ h => absurd h not_mem_nil
  | cons first rest ih =>
    obtain ⟨hfirst, hrest⟩ := pairwise_cons.mp apart
    obtain ⟨hclear, hclears⟩ := forall_mem_cons.mp clear
    refine forall_mem_cons.mpr ⟨(gives_receive hclear first.2).foldl hfirst, ?_⟩
    exact ih hrest fun pair hpair => (hclears pair hpair).receive (hfirst pair hpair) first.2

end Inputs

/-! ## The start of a build -/

namespace Build

variable {session : Session} {name : String} {b : Build} {g : Graph} {node : Node}

/-- The values that a node gives inside a graph. -/
def outputsOf (name : String) (node : Node) : List Expr :=
  node.outputs.map fun port => ⟨name, node.id, port.id, port.type⟩

/-- The body's inputs are the outputs of the source, one after another. -/
theorem exec_bodyInputs (hscope : b.scopes.head? = some name) (hg : b.current? = some g)
    (hnode : g.node? node.id = some node) (distinct : (node.ports.map Port.id).Nodup)
    (params : List ResolvedParam) (position : Nat)
    (inputs : Inputs) (hlength : params.length + position ≤ node.outputs.length) :
    exec (bodyInputs node.id params position inputs) b =
      (.ok ((params.zip ((outputsOf name node).drop position)).foldl Inputs.receive inputs), b) := by
  induction params generalizing position inputs with
  | nil => rfl
  | cons param rest ih =>
    rw [length_cons] at hlength
    have hlt : position < node.outputs.length := by omega
    have hdrop : (outputsOf name node).drop position =
        ⟨name, node.id, node.outputs[position].id, node.outputs[position].type⟩ ::
          (outputsOf name node).drop (position + 1) := by
      rw [outputsOf, ← map_drop, ← map_drop, drop_eq_getElem_cons hlt]
      rfl
    unfold bodyInputs
    rw [exec_bind_ok (exec_outputAt hscope hg hnode distinct (getElem?_eq_getElem hlt)), hdrop]
    exact ih (position + 1) _ (by omega)

/-- Leave the scope that a step is run in. -/
def leaving (step : BuildM α) : BuildM α := fun build =>
  let (result, after) := step build
  (result, { after with scopes := after.scopes.tail })

/-- What is left of a build once its body has its inputs. -/
def resume (session : Session) (name : String) (sink : NodeId) (body : BuildM Returns) : BuildM Unit := do
  leaving do
    let outputs ← collect session (← body)
    bindOutputs session sink outputs 0
  if session.settings.autoLayout then arrange session name

end Build

/-- The inputs are those of a signature in a graph: for every slot there is an entry of the
interface that declares the parameter, an output of the source that shows the entry, and the body
finds the value of this output under the names of the slot. Different slots have different
outputs. -/
structure Signature.Delivers (classes : SocketClasses) (signature : Signature) (name : String) (graph : Graph)
    (source : Node) (inputs : Inputs) : Prop where
  size : graph.interface.inputs.length = signature.slots.length ∧ source.outputs.length = signature.slots.length
  distinct : (source.outputs.map Port.id).Nodup
  slot : ∀ (position : Nat) (group : Option String) (param : Param) (title : String),
    signature.slots[position]? = some (group, param, title) → ∃ entry output,
      graph.interface.inputs[position]? = some entry ∧ param.Declares classes title entry.toDeclaration ∧
      source.outputs[position]? = some output ∧ output.toSocket = entry.socket .output ∧
      inputs.Gives group param.name ⟨name, source.id, output.id, entry.type⟩
  source : graph.node? source.id = some source ∧ source.role = .groupInput

theorem exists_getElem? {β : Type} {r : α → β → Prop} {as : List α}
    {bs : List β} (h : Forall₂ r as bs) {position : Nat}
    {a : α} (ha : as[position]? = some a) : ∃ b, bs[position]? = some b ∧ r a b := by
  induction h generalizing position with
  | nil => cases ha
  | @cons first b as bs hfirst _ ih =>
    cases position with
    | zero =>
      cases ha
      exact ⟨b, rfl, hfirst⟩
    | succ position => exact ih ha

/-- Entries for a signature, and a source that shows them, deliver its inputs. -/
theorem Signature.delivers {signature : Signature} {name : String} {graph : Graph} {source : Node}
    (fills : Forall₂ (Fills classes) signature.slots params) (apart : params.Pairwise ResolvedParam.Apart)
    (declared : graph.interface.inputs.map Entry.toDeclaration = params.map ResolvedParam.declaration)
    (shown : source.outputs.map Port.toSocket = graph.interface.inputs.map fun entry => entry.socket .output)
    (hsource : graph.node? source.id = some source) (hrole : source.role = .groupInput)
    (distinct : (source.outputs.map Port.id).Nodup) :
    signature.Delivers classes name graph source
      ((params.zip (Build.outputsOf name source)).foldl Inputs.receive ∅) := by
  have hentries : graph.interface.inputs.length = params.length := by simpa using congrArg length declared
  have houtputs : source.outputs.length = graph.interface.inputs.length := by simpa using congrArg length shown
  have hslots := fills.length_eq
  refine ⟨⟨by omega, by omega⟩, distinct, fun position group param title hslot => ?_, hsource, hrole⟩
  obtain ⟨resolved, hresolved, hgroup, hkey, hdeclaration⟩ := exists_getElem? fills hslot
  have hentry := congrArg (·[position]?) declared
  have houtput := congrArg (·[position]?) shown
  simp only [getElem?_map, hresolved, Option.map_some] at hentry houtput
  obtain ⟨entry, hentry, heq⟩ := Option.map_eq_some_iff.mp hentry
  rw [hentry, Option.map_some] at houtput
  obtain ⟨output, houtput, hsocket⟩ := Option.map_eq_some_iff.mp houtput
  refine ⟨entry, output, hentry, heq ▸ Param.resolve_eq_ok hdeclaration, houtput, hsocket, ?_⟩
  have hzip : (params.zip (Build.outputsOf name source)).map Prod.fst = params :=
    map_fst_zip (Nat.le_of_eq (by rw [Build.outputsOf, length_map, houtputs, hentries]))
  have hvalue : (Build.outputsOf name source)[position]? = some ⟨name, source.id, output.id, output.type⟩ := by
    rw [Build.outputsOf, getElem?_map, houtput]
    rfl
  have hmem : (params.zip (Build.outputsOf name source))[position]? =
      some (resolved, ⟨name, source.id, output.id, output.type⟩) := getElem?_zip_eq_some.mpr ⟨hresolved, hvalue⟩
  have hgives := @Inputs.gives_foldl ∅ _ (pairwise_map.mp (hzip.symm ▸ apart)) (fun _ _ _ _ _ h => nomatch h) _
    (mem_of_getElem? hmem)
  rw [hgroup, hkey] at hgives
  rwa [show output.type = entry.type from congrArg Socket.type hsocket] at hgives

namespace Build

variable {session : Session} {signature : Signature}

theorem exec_bind_congr {β : Type} {m m' : BuildM α} {b b' : Build} (h : exec m b = exec m' b') (f : α → BuildM β) :
    exec (m >>= f) b = exec (m' >>= f) b' := by
  change (match exec m b with | (a, s) => ExceptT.bindCont f a s) = _
  rw [h]
  rfl

/-- A step in a scope, from where something has been done in it. -/
theorem exec_inScope_of {name : String} {m m' : BuildM α} {b b' : Build}
    (h : exec m { b with scopes := name :: b.scopes } = exec m' b') :
    exec (inScope name m) b = exec (leaving m') b' := by
  rw [exec_inScope, h]
  rfl

/-- Whatever was built before, a build with a valid signature comes to its body, and the body
receives the declared inputs. -/
theorem build_delivers_inputs (standard : session.IsStandard)
    (valid : signature.validate session.classes = .ok params)
    (name : String) (b : Build) :
    ∃ graph source sink inputs b', b'.scopes.head? = some name ∧ b'.store.get? name = some graph ∧
      signature.Delivers session.classes name graph source inputs ∧
      ∀ body, exec (build session name signature body) b = exec (resume session name sink (body inputs)) b' := by
  obtain ⟨fills, apart, _⟩ := Signature.fills_entries valid
  obtain ⟨entries, s, hprepare, hentries⟩ := exec_prepare b name params
  obtain ⟨draft, b', sound, _, _, hsame, hat, hexec⟩ := @exists_start session
    { b.store.getD name with interface := { inputs := entries } } standard ⟨name, [], [], []⟩
    { b with
      store := b.store.set name (b.prepared name entries), supply := s, scopes := name :: b.scopes } rfl
    ((get?_insert _ _ _ _).trans (if_pos rfl))
  obtain ⟨_, _, source, hsource, hrole, _, hsockets⟩ := sound.source
  have hid : source.id = draft.source := sound.keyed hsource
  rw [← hid] at hsource
  have hdistinct := sound.distinct hsource
  have hdeclared := map_declaration_of_reconcile hentries
  have hinterface : draft.graph.interface.inputs = entries := congrArg Interface.inputs hsame
  rw [hinterface] at hsockets
  have hsize : source.outputs.length = params.length := by
    simpa using (congrArg length hsockets).trans (length_map _ |>.trans (by simpa using congrArg length hdeclared))
  obtain ⟨inputs, heq⟩ : ∃ inputs, inputs = (params.zip (outputsOf name source)).foldl Inputs.receive ∅ := ⟨_, rfl⟩
  have hinputs : exec (bodyInputs draft.source params 0 ∅) b' = (.ok inputs, b') := by
    rw [← hid, heq]
    exact exec_bodyInputs hat.scope hat.current hsource hdistinct params 0 ∅ (by omega)
  refine ⟨draft.graph, source, draft.sink, inputs, b', hat.scope, hat.graph, ?_, fun body => ?_⟩
  · rw [heq]
    refine Signature.delivers fills apart ?_ ?_ hsource hrole ?_
    · rw [hinterface, hdeclared]
    · rw [hinterface, hsockets]
    · exact (nodup_append.mp (map_append .. ▸ hdistinct)).2.1
  · have hbody : exec (runBody session params body) { b with
        store := b.store.set name (b.prepared name entries), supply := s, scopes := name :: b.scopes } =
        exec (do
          let outputs ← collect session (← body inputs)
          bindOutputs session draft.sink outputs 0) b' := by
      rw [runBody, hexec, exec_bind_ok hinputs]
    unfold build resume
    rw [valid, exec_bind_ok (exec_ofExcept (.ok params) b), exec_bind_ok hprepare]
    exact exec_bind_congr (exec_inScope_of hbody) _

/-- A signature with a group between two parameters, whose field is called like the last one. -/
def grid : Signature :=
  [.param { name := "size", typeName := "Float", default := some (.int 2), lower := some 0 },
    .group { name := "cells", stem := some "grid", fields := [{ name := "count", typeName := "Int" }] },
    .param { name := "count", typeName := "Bool", lower := some 0 }]

def gridParams : List ResolvedParam :=
  [⟨none, "size", { name := "Size", type := .float, default := some (.float 2), lower := some 0 }⟩,
    ⟨some "cells", "count", { name := "Grid Count", type := .int }⟩,
      ⟨none, "count", { name := "Count", type := .bool }⟩]

theorem build_delivers_inputs_grid :
    grid.validate (Session.standard {}).classes = .ok gridParams ∧ ∃ graph source sink inputs b',
      b'.scopes.head? = some "Grid" ∧ b'.store.get? "Grid" = some graph ∧
      grid.Delivers (Session.standard {}).classes "Grid" graph source inputs ∧
      ∀ body, exec (build (Session.standard {}) "Grid" grid body) { store := .empty, supply := {} } =
        exec (resume (Session.standard {}) "Grid" sink (body inputs)) b' := by
  have hvalid : grid.validate (Session.standard {}).classes = .ok gridParams := by decide +kernel
  exact ⟨hvalid, build_delivers_inputs (Session.isStandard_standard {}) hvalid "Grid" _⟩

end Build

end NodeScript
