import NodeScript.Proofs.Build.Run
import NodeScript.Proofs.Graph.Order

/-!
# Steps that keep to limits

Every operation of building is put together from a few edits of the active graph: a node is added, a
property assigned, a default filled in, a link drawn, a zone or a result extended. Limits say how
the active graph may change, what may be put into it and in which errors a step may end. Where the
edits keep to the limits so does everything that is put together from them, whether it succeeds or
fails, and all other graphs stay as they are.
-/

namespace NodeScript

open OrderedMap

variable {α β : Type} {e : BuildError} {supply : Supply}

/-- Whether the error blames the declaration of a parameter or an item. -/
def BuildError.isConfiguration : BuildError → Bool
  | .configuration .. => true
  | _ => false

/-- What steps of building may do. -/
structure Limits where
  /-- How the active graph may change while identities are drawn. -/
  edit : Graph → Supply → Graph → Supply → Prop
  /-- Names of graphs that may be created and changed besides the active one. -/
  free : String → Prop
  /-- Errors that a step may end in. -/
  error : BuildError → Prop
  /-- Kinds of nodes that may be added. -/
  kind : String → Prop
  /-- Values that may be assigned to properties. -/
  property : String → PropertyValue → Prop
  /-- Literals that may become defaults. -/
  literal : Literal → Prop
  /-- Builds that a step may start from. -/
  context : Build → Prop
  /-- Whether steps must not look at warnings. -/
  quiet : Prop := False

/-- The later build is entered at the same graphs and has all graphs of the earlier one in their
order. Besides free graphs at most the active one has changed, and that by an allowed edit. -/
structure Limits.Within (limits : Limits) (b b' : Build) : Prop where
  scopes : b'.scopes = b.scopes
  version : b'.store.version = b.store.version
  names : b.store.graphs.keys <+: b'.store.graphs.keys
  others : ∀ name, b.scopes.head? ≠ some name → ¬ limits.free name → b'.store.get? name = b.store.get? name
  current : ∀ g, b.current? = some g → ∃ g', b'.current? = some g' ∧ limits.edit g b.supply g' b'.supply

open Build

namespace Limits.Within

variable {limits : Limits} {b b' b'' : Build}

/-- A build with the same store and the same scopes that may have drawn identities. -/
theorem of_eq (skip : ∀ {g s s'}, s.next ≤ s'.next → limits.edit g s g s') (store : b'.store = b.store)
    (scopes : b'.scopes = b.scopes) (le : b.supply.next ≤ b'.supply.next) : limits.Within b b' where
  scopes := scopes
  version := congrArg Store.version store
  names := store ▸ List.prefix_refl _
  others := fun name _ _ => by rw [store]
  current := by
    intro g hg
    refine ⟨g, ?_, skip le⟩
    rwa [current?, store, scopes]

theorem trans
    (step : ∀ {g s g' s' g'' s''}, limits.edit g s g' s' → limits.edit g' s' g'' s'' → limits.edit g s g'' s'')
    (first : limits.Within b b') (second : limits.Within b' b'') : limits.Within b b'' where
  scopes := second.scopes.trans first.scopes
  version := second.version.trans first.version
  names := first.names.trans second.names
  others := by
    intro name hname hfree
    rw [second.others name (by rwa [first.scopes]) hfree, first.others name hname hfree]
  current := by
    intro g hg
    obtain ⟨g', hg', hfirst⟩ := first.current g hg
    obtain ⟨g'', hg'', hsecond⟩ := second.current g' hg'
    exact ⟨g'', hg'', step hfirst hsecond⟩

theorem put {g g' : Graph} (h : b.current? = some g)
    (allowed : limits.edit g b.supply g' supply) : limits.Within b ((b.withSupply supply).put g') := by
  obtain ⟨name, hscope, _⟩ := exists_scope h
  have hput : (b.withSupply supply).put g' = { b with store := b.store.set name g', supply } :=
    @put_eq name (b.withSupply supply) hscope g'
  constructor
  · rw [hput]
  · rw [hput]
    rfl
  · rw [hput]
    exact keys_prefix_insert _ _ _
  · intro other hother _
    rw [hput]
    refine get?_insert_of_ne ?_
    rintro rfl
    exact hother hscope
  · intro found hfound
    rw [h, Option.some.injEq] at hfound
    subst hfound
    rw [supply_put]
    exact ⟨g', current?_put ((current?_withSupply b supply).trans h) g', allowed⟩

end Limits.Within

/-- An argument that stands for no value of a property is a fault of the argument. -/
theorem PropertyDecl.valueOf_plain {decl : PropertyDecl} {argument : Argument}
    (h : decl.valueOf argument = .error e) : e.isConfiguration = false := by
  unfold PropertyDecl.valueOf at h
  dsimp only at h
  split at h
  · cases h
  · cases h
    rfl

/-! ## Keeping to limits -/

namespace Limits

variable {name : String} {argument : Argument}

/-- From this build, the step changes the active graph and fails only as the limits allow. -/
structure KeepsAt (limits : Limits) (b : Build) (m : BuildM α) : Prop where
  within : limits.Within b (exec m b).2
  fails : ∀ e, (exec m b).1 = .error e → limits.error e
  mute : limits.quiet → b.Mute m

/-- The step keeps to the limits wherever it may start. -/
def Keeps (limits : Limits) (m : BuildM α) : Prop := ∀ b, limits.context b → limits.KeepsAt b m

/-- The argument may be given under the name: to a property, as a literal, or as a list of
literals. -/
structure Admits (limits : Limits) (name : String) (argument : Argument) : Prop where
  property : ∀ decl value, PropertyDecl.valueOf decl argument = .ok value → decl.name = name →
    limits.property name value
  literal : ∀ value, argument.literal? = some value → limits.literal value
  items : ∀ items, argument = .list items → ∀ item ∈ items, ∀ value, item.literal? = some value →
    limits.literal value

/-- All arguments may be given. -/
def AdmitsAll (limits : Limits) (arguments : Arguments) : Prop :=
  ∀ name argument, arguments.get? name = some argument → limits.Admits name argument

/-- The literals among the arguments may become defaults. -/
def AdmitsLiterals (limits : Limits) (arguments : Arguments) : Prop :=
  ∀ name argument, arguments.get? name = some argument → ∀ value, argument.literal? = some value →
    limits.literal value

/-- The operand may be bound. -/
def AdmitsOperand (limits : Limits) : Operand → Prop
  | .expr _ => True
  | .literal value => limits.literal value

variable {limits : Limits} {arguments : Arguments}

/-- A node output may be given everywhere. -/
theorem admits_expr (limits : Limits) (name : String) (source : Expr) : limits.Admits name (.expr source) where
  property := by
    intro decl value h
    unfold PropertyDecl.valueOf at h
    cases hkind : decl.kind <;> simp [hkind, Argument.literal?] at h
  literal := by
    intro value h
    cases h
  items := by
    intro items h
    cases h

theorem AdmitsAll.insert (admitted : limits.AdmitsAll arguments) (h : limits.Admits name argument) :
    limits.AdmitsAll (OrderedMap.insert arguments name argument) := by
  intro other found hget
  rw [get?_insert] at hget
  split at hget
  · next heq =>
      cases hget
      exact heq ▸ h
  · exact admitted other found hget

theorem admitsAll_empty (limits : Limits) : limits.AdmitsAll ∅ := by
  intro name argument h
  cases h

theorem AdmitsAll.insertFields (admitted : limits.AdmitsAll arguments) (fields : List (String × Expr)) :
    limits.AdmitsAll (fields.foldl (fun spread (field, expr) => spread.insert field (.expr expr)) arguments) := by
  induction fields generalizing arguments with
  | nil => exact admitted
  | cons field rest ih => exact ih (admitted.insert (admits_expr limits field.1 field.2))

theorem AdmitsAll.spreadGroups (admitted : limits.AdmitsAll arguments) :
    limits.AdmitsAll (spreadGroups arguments) := by
  have hentries : ∀ entry ∈ arguments.entries, limits.Admits entry.1 entry.2 := fun entry hentry =>
    admitted entry.1 entry.2 (get?_eq_some_iff.mpr hentry)
  have hstart := admitsAll_empty limits
  unfold NodeScript.spreadGroups
  revert hentries hstart
  generalize (∅ : Arguments) = spread
  generalize arguments.entries = entries
  intro hentries hstart
  induction entries generalizing spread with
  | nil => exact hstart
  | cons entry rest ih =>
    obtain ⟨name, argument⟩ := entry
    have hargument := hentries (name, argument) List.mem_cons_self
    rw [List.foldl_cons]
    apply ih _ fun other hother => hentries other (.tail _ hother)
    cases argument with
    | group group => exact hstart.insertFields group.fields.entries
    | _ => exact hstart.insert hargument

theorem AdmitsAll.erase (admitted : limits.AdmitsAll arguments) (name : String) :
    limits.AdmitsAll (OrderedMap.erase arguments name) :=
  fun other argument hget => admitted other argument (get?_of_erase hget)

theorem AdmitsLiterals.erase (admitted : limits.AdmitsLiterals arguments) (name : String) :
    limits.AdmitsLiterals (OrderedMap.erase arguments name) :=
  fun other argument hget => admitted other argument (get?_of_erase hget)

theorem initialOperand_plain (h : initialOperand name argument = .error e) :
    e.isConfiguration = false := by
  unfold initialOperand at h
  split at h
  · cases h
  · split at h
    · cases h
    · cases h
      rfl

theorem admitsOperand_initialOperand {operand : Operand}
    (literal : ∀ value, argument.literal? = some value → limits.literal value)
    (h : initialOperand name argument = .ok operand) : limits.AdmitsOperand operand := by
  unfold initialOperand at h
  split at h
  · cases h
    trivial
  · split at h
    · next value hvalue =>
        cases h
        exact literal value hvalue
    · cases h

/-- The limits allow the edits that building is put together from. -/
structure Lawful (limits : Limits) (session : Session) : Prop where
  skip : ∀ {g s s'}, s.next ≤ s'.next → limits.edit g s g s'
  trans : ∀ {g s g' s' g'' s''}, limits.edit g s g' s' → limits.edit g' s' g'' s'' → limits.edit g s g'' s''
  plain : ∀ {e : BuildError}, e.isConfiguration = false → limits.error e
  add : ∀ {name kind}, limits.kind name → session.catalog.get? name = some kind → ∀ g s,
    limits.edit g s (g.addNode (Node.ofKind kind s).1 (Node.ofKind kind s).2).1
      (g.addNode (Node.ofKind kind s).1 (Node.ofKind kind s).2).2
  assign : ∀ {g id n n' name value}, limits.property name value → Graph.node? g id = some n →
    n.setProperty name value = .ok n' → ∀ s, limits.edit g s (g.updateNode id fun _ => n') s
  fill : ∀ {g id n value}, limits.literal value → Graph.node? g id = some n → ∀ port s,
    limits.edit g s (g.updateNode id fun _ => n.updatePort port fun p => { p with default := some value }) s
  link : ∀ {g fromNode fromPort toNode toPort}, Graph.checkLink g fromNode fromPort toNode toPort = .ok () → ∀ s,
    limits.edit g s (g.withLink ⟨(Supply.fresh s).1, fromNode, fromPort, toNode, toPort⟩) (Supply.fresh s).2
  pair : ∀ {g g' entry exit}, Graph.pairZone g entry exit = .ok g' → ∀ s, limits.edit g s g' s
  clear : ∀ {g g' entry}, Graph.clearZoneItems g entry = .ok g' → ∀ s, limits.edit g s g' s
  item : ∀ g entry name type s,
    limits.edit g s (g.addZoneItem entry name type s).1.1 (g.addZoneItem entry name type s).2
  output : ∀ g (declaration : Declaration) s,
    limits.edit g s (g.addOutput (declaration.mint s).1 (declaration.mint s).2).1
      (g.addOutput (declaration.mint s).1 (declaration.mint s).2).2
  move : ∀ g id position s, limits.edit g s (g.move id position) s
  coerce : ∀ {value value'} (type : SocketType), limits.literal value → type.coerce? value = some value' →
    limits.literal value'
  carrier : ∀ {value carrier}, limits.literal value → value.constantNode = .ok carrier → limits.kind carrier.kind
  carried : ∀ {value carrier name property}, limits.literal value → value.constantNode = .ok carrier →
    carrier.place = .property name property → limits.property name property
  ends : ∀ kind : Script.ZoneKind, limits.kind kind.entryKind ∧ limits.kind kind.exitKind
  context : ∀ {b b'}, limits.context b → limits.Within b b' → limits.context b'

namespace Lawful

variable {limits : Limits} {session : Session} {b : Build} {m : BuildM α} {f : α → BuildM β}
  (lawful : limits.Lawful session) {γ : Type} {kind : String}
include lawful

theorem keepsAt_bind (hb : limits.context b) (first : limits.KeepsAt b m)
    (second : ∀ a b', limits.context b' → exec m b = (.ok a, b') → limits.KeepsAt b' (f a)) :
    limits.KeepsAt b (m >>= f) := by
  cases hm : exec m b with
  | mk result b' =>
    obtain ⟨hwithin, hfails, hmute⟩ := first
    simp only [Mute, hm] at hwithin hfails hmute
    cases result with
    | error e =>
      constructor
      · rwa [exec_bind_error hm]
      · rw [exec_bind_error hm]
        intro e' he'
        cases he'
        exact hfails e rfl
      · intro quiet warnings
        obtain ⟨warnings', hm'⟩ := hmute quiet warnings
        rw [exec_bind_error hm, exec_bind_error hm']
        exact ⟨warnings', rfl⟩
    | ok a =>
      have hnext := second a b' (lawful.context hb hwithin) hm
      constructor
      · rw [exec_bind_ok hm]
        exact hwithin.trans lawful.trans hnext.within
      · rw [exec_bind_ok hm]
        exact hnext.fails
      · intro quiet warnings
        obtain ⟨warnings', hm'⟩ := hmute quiet warnings
        rw [exec_bind_ok hm, exec_bind_ok hm']
        exact hnext.mute quiet warnings'

theorem keeps_bind (first : limits.Keeps m) (second : ∀ a, limits.Keeps (f a)) : limits.Keeps (m >>= f) :=
  fun b hb => lawful.keepsAt_bind hb (first b hb) fun a b' hb' _ => second a b' hb'

/-- A step that leaves the store and the scopes alone. -/
theorem keepsAt_of_eq (store : (exec m b).2.store = b.store) (scopes : (exec m b).2.scopes = b.scopes)
    (le : b.supply.next ≤ (exec m b).2.supply.next) (fails : ∀ e, (exec m b).1 = .error e → limits.error e)
    (mute : limits.quiet → b.Mute m) : limits.KeepsAt b m :=
  ⟨.of_eq lawful.skip store scopes le, fails, mute⟩

theorem keeps_pure (a : α) : limits.Keeps (pure a : BuildM α) :=
  fun _ _ => lawful.keepsAt_of_eq rfl rfl (Nat.le_refl _) (fun _ h => by cases h) fun _ _ => ⟨_, rfl⟩

theorem keeps_throw (h : limits.error e) : limits.Keeps (throw e : BuildM α) :=
  fun _ _ => lawful.keepsAt_of_eq rfl rfl (Nat.le_refl _) (fun _ he => by cases he; exact h) fun _ _ => ⟨_, rfl⟩

theorem keeps_fault (h : e.isConfiguration = false) : limits.Keeps (throw e : BuildM α) :=
  lawful.keeps_throw (lawful.plain h)

theorem keeps_get (loud : ¬ limits.quiet) : limits.Keeps (get : BuildM Build) :=
  fun _ _ => lawful.keepsAt_of_eq rfl rfl (Nat.le_refl _) (fun _ h => by cases h) fun quiet => absurd quiet loud

omit lawful in
/-- A step that looks at the build, but not at its warnings. -/
theorem keeps_read {f : Build → BuildM β} (blind : ∀ b warnings, f (b.withWarnings warnings) = f b)
    (h : ∀ b, limits.Keeps (f b)) : limits.Keeps (get >>= f) := by
  intro b hb
  obtain ⟨hwithin, hfails, hmute⟩ := h b b hb
  refine ⟨hwithin, hfails, fun quiet warnings => ?_⟩
  have hread : exec (get >>= f) (b.withWarnings warnings) = exec (f b) (b.withWarnings warnings) := by
    rw [exec_bind_ok (exec_get _), blind]
  rw [hread]
  exact hmute quiet warnings

theorem keeps_draw {step : StateM Supply α} (climbs : Supply.Climbs step) : limits.Keeps (draw step) :=
  fun b _ => lawful.keepsAt_of_eq rfl rfl (climbs b.supply) (fun _ h => by cases h) fun _ _ => ⟨_, rfl⟩

theorem keeps_warn (warning : Warning) : limits.Keeps (warn warning) :=
  fun _ _ => lawful.keepsAt_of_eq rfl rfl (Nat.le_refl _) (fun _ h => by cases h) fun _ _ => ⟨_, rfl⟩

theorem keeps_report (event : Event) : limits.Keeps (report event) :=
  fun _ _ => lawful.keepsAt_of_eq rfl rfl (Nat.le_refl _) (fun _ h => by cases h) fun _ _ => ⟨_, rfl⟩

theorem keeps_ofExcept {r : Except BuildError α} (h : ∀ e, r = .error e → limits.error e) :
    limits.Keeps (Build.ofExcept r) := by
  cases r with
  | ok a => exact lawful.keeps_pure a
  | error e => exact lawful.keeps_throw (h e rfl)

/-- What is known of a result that was computed may be used. -/
theorem keeps_bindExcept {r : Except BuildError α} (fails : ∀ e, r = .error e → limits.error e)
    (second : ∀ a, r = .ok a → limits.Keeps (f a)) : limits.Keeps (Build.ofExcept r >>= f) := by
  intro b hb
  apply lawful.keepsAt_bind hb (lawful.keeps_ofExcept fails b hb)
  intro a b' hb' h
  rw [exec_ofExcept, Prod.mk.injEq] at h
  exact second a h.1 b' hb'

theorem keeps_forM {items : List γ} {step : γ → BuildM PUnit}
    (h : ∀ item ∈ items, limits.Keeps (step item)) : limits.Keeps (items.forM step) := by
  induction items with
  | nil => exact lawful.keeps_pure ()
  | cons item rest ih =>
    apply lawful.keeps_bind (h item List.mem_cons_self)
    intro _
    exact ih fun other hother => h other (.tail _ hother)

/-! ## Reading the active graph -/

theorem keeps_active : limits.Keeps active := by
  apply keeps_read fun _ _ => rfl
  intro b
  split
  · exact lawful.keeps_pure _
  · exact lawful.keeps_fault rfl

theorem keeps_graph : limits.Keeps graph := by
  apply lawful.keeps_bind lawful.keeps_active
  intro name
  apply keeps_read fun _ _ => rfl
  intro b
  split
  · exact lawful.keeps_pure _
  · exact lawful.keeps_fault rfl

section

variable (id : NodeId)

theorem keeps_node : limits.Keeps (node id) := by
  apply lawful.keeps_bind lawful.keeps_graph
  intro g
  split
  · exact lawful.keeps_pure _
  · exact lawful.keeps_fault rfl

theorem keeps_port (portId : PortId) : limits.Keeps (port id portId) := by
  apply lawful.keeps_bind (lawful.keeps_node id)
  intro n
  split
  · exact lawful.keeps_pure _
  · exact lawful.keeps_fault rfl

theorem keeps_inputAt (position : Nat) : limits.Keeps (inputAt id position) := by
  apply lawful.keeps_bind (lawful.keeps_node id)
  intro n
  split
  · exact lawful.keeps_pure _
  · exact lawful.keeps_fault rfl

theorem keeps_enabledInputs : limits.Keeps (enabledInputs id) :=
  lawful.keeps_bind (lawful.keeps_node id) fun _ => lawful.keeps_pure _

theorem keeps_inputNamed (name : String) : limits.Keeps (inputNamed id name) := by
  apply lawful.keeps_bind (lawful.keeps_node id)
  intro n
  split
  · exact lawful.keeps_pure _
  · exact lawful.keeps_fault rfl

theorem keeps_expr (portId : PortId) : limits.Keeps (expr id portId) := by
  apply lawful.keeps_bind lawful.keeps_active
  intro name
  exact lawful.keeps_bind (lawful.keeps_port id portId) fun _ => lawful.keeps_pure _

theorem keeps_outputAt (position : Nat) : limits.Keeps (outputAt id position) := by
  apply lawful.keeps_bind (lawful.keeps_node id)
  intro n
  split
  · exact lawful.keeps_expr id _
  · exact lawful.keeps_fault rfl

theorem keeps_firstOutput : limits.Keeps (firstOutput id) := by
  apply lawful.keeps_bind (lawful.keeps_node id)
  intro n
  split
  · exact lawful.keeps_expr id _
  · exact lawful.keeps_fault rfl

theorem keeps_namedOutputs (ports : List Port) (named : OrderedMap String Expr) :
    limits.Keeps (namedOutputs id ports named) := by
  induction ports generalizing named with
  | nil => exact lawful.keeps_pure named
  | cons port rest ih =>
    rw [namedOutputs]
    split
    · exact ih named
    · exact lawful.keeps_bind (lawful.keeps_expr id port.id) fun _ => ih _

theorem keeps_callResult : limits.Keeps (callResult id) := by
  apply lawful.keeps_bind (lawful.keeps_node id)
  intro n
  split
  · exact lawful.keeps_bind (lawful.keeps_expr id _) fun _ => lawful.keeps_pure _
  · exact lawful.keeps_bind (lawful.keeps_namedOutputs id _ _) fun _ => lawful.keeps_pure _

end

/-! ## Edits -/

section Edits

variable {g g' : Graph} {id : NodeId}

omit lawful in
theorem keepsAt_putGraph (h : b.current? = some g) (allowed : limits.edit g b.supply g' b.supply) :
    limits.KeepsAt b (putGraph g') := by
  constructor
  · rw [exec_putGraph h]
    exact Within.put h allowed
  · rw [exec_putGraph h]
    intro e he
    cases he
  · intro _ warnings
    have h' : (b.withWarnings warnings).current? = some g := h
    rw [exec_putGraph h, exec_putGraph h', put_withWarnings]
    exact ⟨warnings, rfl⟩

/-- A step that fails at once. -/
theorem keepsAt_error (plain : e.isConfiguration = false)
    (h : ∀ warnings, exec m (b.withWarnings warnings) = (.error e, b.withWarnings warnings)) :
    limits.KeepsAt b m := by
  have hself : exec m b = (.error e, b) := h b.warnings
  apply lawful.keepsAt_of_eq
  · rw [hself]
  · rw [hself]
  · exact Nat.le_of_eq (by rw [hself])
  · rw [hself]
    rintro _ ⟨⟩
    exact lawful.plain plain
  · intro _ warnings
    rw [h, hself]
    exact ⟨warnings, rfl⟩

/-- A step that first reads the active graph. -/
theorem keeps_graph_bind {f : Graph → BuildM β}
    (h : ∀ b g, limits.context b → b.current? = some g → limits.KeepsAt b (f g)) : limits.Keeps (graph >>= f) := by
  intro b hb
  apply lawful.keepsAt_bind hb (lawful.keeps_graph b hb)
  intro g b' _ hexec
  obtain ⟨hcurrent, rfl⟩ := exec_graph_eq_ok.mp hexec
  exact h b' g hb hcurrent

/-- A step that first reads a node. -/
theorem keepsAt_node_bind {f : Node → BuildM β} (hb : limits.context b)
    (h : ∀ g n, b.current? = some g → g.node? id = some n → limits.KeepsAt b (f n)) :
    limits.KeepsAt b (node id >>= f) := by
  apply lawful.keepsAt_bind hb (lawful.keeps_node id b hb)
  intro n b' _ hexec
  obtain ⟨g, hcurrent, hnode, rfl⟩ := exec_node_eq_ok.mp hexec
  exact h g n hcurrent hnode

theorem keeps_node_bind {f : Node → BuildM β}
    (h : ∀ b g n, limits.context b → b.current? = some g → g.node? id = some n → limits.KeepsAt b (f n)) :
    limits.Keeps (node id >>= f) :=
  fun b hb => lawful.keepsAt_node_bind hb fun g n => h b g n hb

theorem keepsAt_putNode {n : Node} (hb : limits.context b) (h : b.current? = some g)
    (allowed : limits.edit g b.supply (g.updateNode id fun _ => n) b.supply) : limits.KeepsAt b (putNode id n) := by
  apply lawful.keepsAt_bind hb (lawful.keeps_graph b hb)
  intro found b' _ hexec
  rw [exec_graph h] at hexec
  cases hexec
  exact keepsAt_putGraph h allowed

/-- Drawing identities and changing the active graph, in one go. -/
theorem keepsAt_put {rest : BuildM α} (hb : limits.context b) (h : b.current? = some g)
    (allowed : limits.edit g b.supply g' supply) (hrest : limits.Keeps rest)
    (hexec : ∀ warnings, exec m (b.withWarnings warnings) =
      exec rest (((b.withSupply supply).put g').withWarnings warnings)) : limits.KeepsAt b m := by
  have hwithin : limits.Within b ((b.withSupply supply).put g') := Within.put h allowed
  obtain ⟨hnext, hfails, hmute⟩ := hrest _ (lawful.context hb hwithin)
  have hself : exec m b = exec rest ((b.withSupply supply).put g') := by
    have h := hexec b.warnings
    rwa [← put_withWarnings] at h
  constructor
  · rw [hself]
    exact hwithin.trans lawful.trans hnext
  · rw [hself]
    exact hfails
  · intro quiet warnings
    rw [hexec, hself]
    exact hmute quiet warnings

/-- Changing the active graph by a step that draws identities. -/
theorem keeps_edit {step : Graph → StateM Supply γ} {result : γ → Graph} {rest : γ → BuildM β}
    (allowed : ∀ g s, limits.edit g s (result (step g s).1) (step g s).2) (h : ∀ c, limits.Keeps (rest c)) :
    limits.Keeps (do
      let g ← graph
      let c ← draw (step g)
      putGraph (result c)
      rest c) := by
  apply lawful.keeps_graph_bind
  intro b g hb hcurrent
  refine lawful.keepsAt_put hb hcurrent (allowed g b.supply) (h (step g b.supply).1) fun warnings => ?_
  rw [← put_withWarnings]
  have hdrawn := (current?_withSupply (b.withWarnings warnings) (step g b.supply).2).trans hcurrent
  exact (exec_bind_ok (exec_draw _ _)).trans (exec_bind_ok (exec_putGraph hdrawn _))

/-- Changing the active graph by something that was drawn for it. -/
theorem keeps_editDrawn {first : StateM Supply γ} (climbs : Supply.Climbs first)
    {step : γ → Graph → StateM Supply Graph} {rest : γ → BuildM β}
    (allowed : ∀ g s, limits.edit g s (step (first s).1 g (first s).2).1 (step (first s).1 g (first s).2).2)
    (h : ∀ c, limits.Keeps (rest c)) :
    limits.Keeps (do
      let c ← draw first
      let g ← graph
      putGraph (← draw (step c g))
      rest c) := by
  intro b hb
  cases hcurrent : b.current? with
  | none =>
    apply lawful.keepsAt_bind hb (lawful.keeps_draw climbs b hb)
    intro c b' hb' hexec
    cases hexec
    apply lawful.keepsAt_bind hb' (lawful.keeps_graph _ hb')
    intro g b' _ hexec
    cases hcurrent.symm.trans (exec_graph_eq_ok.mp hexec).1
  | some g =>
    refine lawful.keepsAt_put hb hcurrent (allowed g b.supply) (h (first b.supply).1) fun warnings => ?_
    have hdrawn : ((b.withWarnings warnings).withSupply
        (first (b.withWarnings warnings).supply).2).current? = some g :=
      hcurrent
    rw [← put_withWarnings, exec_bind_ok (exec_draw _ _),
      exec_bind_ok (exec_graph hdrawn), exec_bind_ok (exec_draw _ _),
      exec_bind_ok (exec_putGraph ((current?_withSupply _ _).trans hdrawn) _)]
    rfl

theorem keeps_addNode (h : limits.kind kind) : limits.Keeps (addNode session kind) := by
  unfold addNode
  split
  · exact lawful.keeps_fault rfl
  · next found hfound =>
      exact lawful.keeps_editDrawn (Supply.climbs_ofKind found) (lawful.add h hfound) fun node =>
        lawful.keeps_pure node.id

theorem keeps_setProperty (id : NodeId) {value : PropertyValue} (h : limits.property name value) :
    limits.Keeps (setProperty id name value) := by
  apply lawful.keeps_node_bind
  intro b g n hb hcurrent hnode
  split
  · next n' hset => exact lawful.keepsAt_putNode hb hcurrent (lawful.assign h hnode hset b.supply)
  · exact lawful.keeps_fault rfl b hb

theorem keeps_setDefault (id : NodeId) (portId : PortId) {value : Literal} (h : limits.literal value) :
    limits.Keeps (setDefault id portId value) := by
  apply lawful.keeps_bind (lawful.keeps_port id portId)
  intro _
  apply lawful.keeps_node_bind
  intro b g n hb hcurrent hnode
  exact lawful.keepsAt_putNode hb hcurrent (lawful.fill h hnode portId b.supply)

theorem keeps_link (source : Expr) (id : NodeId) (portId : PortId) : limits.Keeps (Build.link source id portId) := by
  apply lawful.keeps_bind lawful.keeps_active
  intro name
  split
  · exact lawful.keeps_fault rfl
  · apply lawful.keeps_graph_bind
    intro b g hb hcurrent
    cases hcheck : g.checkLink source.node source.port id portId with
    | error e =>
      refine keepsAt_error lawful (e := .link e) rfl fun warnings => ?_
      rw [exec_bind_ok (exec_draw _ _), connect_apply, hcheck]
      rfl
    | ok _ =>
      refine lawful.keepsAt_put hb hcurrent (lawful.link hcheck b.supply) (lawful.keeps_pure ()) fun warnings => ?_
      rw [← put_withWarnings, exec_bind_ok (exec_draw _ _), connect_apply, hcheck]
      exact exec_putGraph ((current?_withSupply (b.withWarnings warnings) _).trans hcurrent) _

theorem keepsAt_liftZone {result : Except ZoneError Graph} (hb : limits.context b) (h : b.current? = some g)
    (allowed : ∀ g', result = .ok g' → limits.edit g b.supply g' b.supply) : limits.KeepsAt b (liftZone result) := by
  cases result with
  | error e => exact lawful.keeps_fault rfl b hb
  | ok g' => exact keepsAt_putGraph h (allowed g' rfl)

end Edits

/-! ## Values and arguments -/

section Binding

variable {value : Literal} {operand : Operand} {argument : Argument}

theorem keeps_constant (h : limits.literal value) : limits.Keeps (constant session value) := by
  apply lawful.keeps_bindExcept
  · intro e he
    cases value <;> cases he
    exact lawful.plain rfl
  · intro carrier hcarrier
    apply lawful.keeps_bind (lawful.keeps_addNode (lawful.carrier h hcarrier))
    intro id
    split
    · next name property hplace =>
        exact lawful.keeps_bind (lawful.keeps_setProperty id (lawful.carried h hcarrier hplace)) fun _ =>
          lawful.keeps_outputAt id 0
    · apply lawful.keeps_bind (lawful.keeps_outputAt id 0)
      intro output
      exact lawful.keeps_bind (lawful.keeps_setDefault id output.port h) fun _ => lawful.keeps_outputAt id 0

theorem keeps_bindLiteral (h : limits.literal value) (id : NodeId) (portId : PortId) :
    limits.Keeps (bindLiteral session value id portId) := by
  apply lawful.keeps_bind (lawful.keeps_port id portId)
  intro port
  split
  · next default hdefault => exact lawful.keeps_setDefault id portId (lawful.coerce port.type h hdefault)
  · exact lawful.keeps_bind (lawful.keeps_constant h) fun source => lawful.keeps_link source id portId

theorem keeps_bindOperand (h : limits.AdmitsOperand operand) (id : NodeId) (portId : PortId) :
    limits.Keeps (bindOperand session operand id portId) := by
  cases operand with
  | expr source => exact lawful.keeps_link source id portId
  | literal value => exact lawful.keeps_bindLiteral h id portId

theorem keeps_operandExpr (h : limits.AdmitsOperand operand) : limits.Keeps (operandExpr session operand) := by
  cases operand with
  | expr source => exact lawful.keeps_pure source
  | literal value => exact lawful.keeps_constant h

theorem keeps_bindPrimary (id : NodeId) (primary : Option Expr) : limits.Keeps (bindPrimary id primary) := by
  cases primary with
  | none => exact lawful.keeps_pure none
  | some source =>
    apply lawful.keeps_bind (lawful.keeps_inputAt id 0)
    intro port
    exact lawful.keeps_bind (lawful.keeps_link source id port) fun _ => lawful.keeps_pure _

theorem keeps_bindProperties (id : NodeId) (decls : List PropertyDecl) (admitted : limits.AdmitsAll arguments) :
    limits.Keeps (bindProperties id decls arguments) := by
  induction decls generalizing arguments with
  | nil => exact lawful.keeps_pure arguments
  | cons decl rest ih =>
    rw [bindProperties]
    split
    · exact ih admitted
    · next argument hargument =>
        apply lawful.keeps_bindExcept
        · intro e he
          exact lawful.plain (PropertyDecl.valueOf_plain he)
        · intro value hvalue
          have hproperty := (admitted _ _ hargument).property decl value hvalue rfl
          apply lawful.keeps_bind (lawful.keeps_setProperty id hproperty)
          intro _
          exact ih (admitted.erase decl.name)

omit lawful in
/-- What the properties leave over was given. -/
theorem admitsAll_bindProperties {id : NodeId} {decls : List PropertyDecl} {rest : Arguments} {b' : Build}
    (admitted : limits.AdmitsAll arguments) (h : exec (bindProperties id decls arguments) b = (.ok rest, b')) :
    limits.AdmitsAll rest := by
  induction decls generalizing arguments b with
  | nil =>
    cases h
    exact admitted
  | cons decl decls ih =>
    rw [bindProperties] at h
    split at h
    · exact ih admitted h
    · next argument hargument =>
        obtain ⟨value, _, _, h⟩ := exec_bind_eq_ok.mp h
        obtain ⟨_, _, _, h⟩ := exec_bind_eq_ok.mp h
        exact ih (admitted.erase decl.name) h

theorem keeps_bindPlain (name : String) (id : NodeId) (port : PortId)
    (h : ∀ value, argument.literal? = some value → limits.literal value) :
    limits.Keeps (bindPlain session name id port argument) := by
  unfold bindPlain
  split
  · exact lawful.keeps_link _ id port
  · exact lawful.keeps_fault rfl
  · split
    · next value hvalue => exact lawful.keeps_bindLiteral (h value hvalue) id port
    · exact lawful.keeps_fault rfl

theorem keeps_bindArgument (name : String) (id : NodeId) (port : PortId)
    (h : ∀ value, argument.literal? = some value → limits.literal value) :
    limits.Keeps (bindArgument session name id port argument) := by
  unfold bindArgument
  split
  · next items =>
      split
      · next hexprs =>
          simp only [Argument.isExprList, Bool.and_eq_true, List.all_eq_true] at hexprs
          apply lawful.keeps_forM
          intro item hitem
          apply lawful.keeps_bindPlain
          intro value hvalue
          have hexpr := hexprs.2 item hitem
          cases item with
          | expr source => cases hvalue
          | _ => cases hexpr
      · exact lawful.keeps_bindPlain name id port h
  · exact lawful.keeps_bindPlain name id port h

theorem keeps_bindGroup (id : NodeId) (group : PortGroup) (h : limits.Admits name argument) :
    limits.Keeps (bindGroup session id group argument) := by
  have toAll : limits.Keeps (group.ports.forM fun port => bindArgument session group.name id port argument) :=
    lawful.keeps_forM fun port _ => lawful.keeps_bindArgument group.name id port h.literal
  unfold bindGroup
  dsimp only
  split
  · next items =>
      have hitems := h.items items rfl
      split
      · apply lawful.keeps_forM
        intro port _
        exact lawful.keeps_forM fun item hitem => lawful.keeps_bindArgument group.name id port (hitems item hitem)
      · split
        · split
          · exact lawful.keeps_fault rfl
          · split
            · exact toAll
            · apply lawful.keeps_forM
              rintro ⟨item, port⟩ hpair
              exact lawful.keeps_bindArgument group.name id port (hitems item (List.of_mem_zip hpair).1)
        · exact toAll
  · exact toAll

theorem keeps_bindGroups (id : NodeId) (admitted : limits.AdmitsAll arguments) (groups : List PortGroup) :
    limits.Keeps (bindGroups session id arguments groups) := by
  induction groups with
  | nil => exact lawful.keeps_pure ()
  | cons group rest ih =>
    rw [bindGroups]
    split
    · next argument hargument =>
        exact lawful.keeps_bind (lawful.keeps_bindGroup id group (admitted _ _ hargument)) fun _ => ih
    · exact lawful.keeps_bind (lawful.keeps_pure ()) fun _ => ih

theorem keeps_bindOutputDefault (id : NodeId) (name : String)
    (h : ∀ value, argument.literal? = some value → limits.literal value) :
    limits.Keeps (bindOutputDefault id name argument) := by
  apply lawful.keeps_bind (lawful.keeps_node id)
  intro n
  dsimp only
  split
  · exact lawful.keeps_pure false
  · next port _ =>
      split
      · exact lawful.keeps_fault rfl
      · next value hvalue =>
          obtain ⟨literal, hliteral, hcoerce⟩ := Option.bind_eq_some_iff.mp hvalue
          have hvalue := lawful.coerce port.type (h literal hliteral) hcoerce
          exact lawful.keeps_bind (lawful.keeps_setDefault id port.id hvalue) fun _ => lawful.keeps_pure true

theorem keeps_bindRest (id : NodeId) {entries : List (String × Argument)}
    (h : ∀ entry ∈ entries, limits.Admits entry.1 entry.2) : limits.Keeps (bindRest id entries) := by
  induction entries with
  | nil => exact lawful.keeps_pure ()
  | cons entry rest ih =>
    obtain ⟨name, argument⟩ := entry
    have hrest := ih fun other hother => h other (.tail _ hother)
    rw [bindRest]
    apply lawful.keeps_bind (lawful.keeps_bindOutputDefault id name (h _ List.mem_cons_self).literal)
    intro used
    split
    · apply lawful.keeps_bind (lawful.keeps_node id)
      intro n
      exact lawful.keeps_bind (lawful.keeps_warn _) fun _ => hrest
    · exact lawful.keeps_bind (lawful.keeps_pure ()) fun _ => hrest

theorem keeps_bindArguments (id : NodeId) (primary : Option Expr) (admitted : limits.AdmitsAll arguments) :
    limits.Keeps (bindArguments session id primary arguments) := by
  apply lawful.keeps_bind (lawful.keeps_bindPrimary id primary)
  intro skipped
  apply lawful.keeps_bind (lawful.keeps_node id)
  intro n b hb
  apply lawful.keepsAt_bind hb (lawful.keeps_bindProperties id _ admitted.spreadGroups b hb)
  intro rest b' hb' hexec
  have hrest := admitsAll_bindProperties admitted.spreadGroups hexec
  refine lawful.keeps_bind (lawful.keeps_node id) (fun n => ?_) b' hb'
  apply lawful.keeps_bind (lawful.keeps_bindGroups id hrest _)
  intro _
  apply lawful.keeps_bind
  · apply lawful.keeps_bindRest
    intro entry hentry
    exact hrest entry.1 entry.2 (get?_eq_some_iff.mpr (List.mem_filter.mp hentry).1)
  · exact fun _ => lawful.keeps_callResult id

theorem keeps_lower (h : limits.kind kind) (primary : Option Expr)
    (admitted : limits.AdmitsAll arguments) : limits.Keeps (lower session kind primary arguments) :=
  lawful.keeps_bind (lawful.keeps_addNode h) fun id => lawful.keeps_bindArguments id primary admitted

/-- The node of a called graph may get ports that have just been drawn. -/
theorem keeps_callGraph (hkind : limits.kind groupKind) (hproperty : limits.property graphProperty (.graph name))
    (ports : ∀ {g id n} {inputs outputs : List Port} {mid} {s s' : Supply}, Graph.node? g id = some n →
      Supply.Draws s.next mid (inputs.map Port.id) → Supply.Draws mid s'.next (outputs.map Port.id) →
        limits.edit g s (g.updateNode id fun _ => { n with name, inputs, outputs }) s')
    (primary : Option Expr) (admitted : limits.AdmitsAll arguments) :
    limits.Keeps (callGraph session name primary arguments) := by
  apply lawful.keeps_bind lawful.keeps_active
  intro active
  split
  · exact lawful.keeps_fault rfl
  apply keeps_read fun _ _ => rfl
  intro b
  split
  · next target _ =>
      apply lawful.keeps_bind (lawful.keeps_addNode hkind)
      intro id
      apply lawful.keeps_bind (lawful.keeps_setProperty id hproperty)
      intro _ b hb
      have hmint := Supply.climbs_mapM Supply.climbs_mint
      by_cases hnode : ∃ g n, b.current? = some g ∧ g.node? id = some n
      · obtain ⟨g, n, hg, hn⟩ := hnode
        have hedit := @ports g id n _ _ _ b.supply _ hn (Supply.draws_mapM_mint target.interface.inputSockets _)
          (Supply.draws_mapM_mint target.interface.outputSockets _)
        refine lawful.keepsAt_put hb hg hedit (lawful.keeps_bindArguments id primary admitted) fun warnings => ?_
        have hdrawn : ∀ supply, ((b.withWarnings warnings).withSupply supply).current? = some g := fun _ => hg
        rw [← put_withWarnings, exec_bind_ok (exec_draw _ _), exec_bind_ok (exec_draw _ _), withSupply_withSupply,
          exec_bind_ok (exec_node_of (hdrawn _) hn), exec_bind_ok (exec_putNode (hdrawn _) id _)]
        rfl
      · apply lawful.keepsAt_bind hb (lawful.keeps_draw (hmint _) b hb)
        intro inputs b₁ hb₁ hinputs
        apply lawful.keepsAt_bind hb₁ (lawful.keeps_draw (hmint _) b₁ hb₁)
        intro outputs b₂ hb₂ houtputs
        cases hinputs
        cases houtputs
        exact lawful.keepsAt_node_bind hb₂ fun g n hg hn => absurd ⟨g, n, hg, hn⟩ hnode
  · exact lawful.keeps_fault rfl

/-- A call keeps to the limits where the kind does that it stands for, or the graph. -/
theorem keeps_call {function : String} {primary : Option Expr}
    (hkind : ∀ entry, session.functions.get? function = some entry → limits.kind entry.kind)
    (hgraph : session.functions.get? function = none → ∀ name, snakeCase name = function →
      limits.Keeps (callGraph session name primary arguments))
    (admitted : limits.AdmitsAll arguments) : limits.Keeps (call session function primary arguments) := by
  unfold call
  split
  · next entry hentry => exact lawful.keeps_lower (hkind entry hentry) primary admitted
  · next hnone =>
      apply keeps_read fun _ _ => rfl
      intro b
      dsimp only
      split
      · next graph hfind => exact hgraph hnone graph.name (by simpa using List.find?_some hfind)
      · exact lawful.keeps_fault rfl

end Binding

/-! ## Zones -/

variable {items : List Param} {initial : Arguments} {step : Inputs → BuildM (List Operand)}

theorem keeps_addItems (entry : NodeId) (items : List (String × SocketType)) :
    limits.Keeps (addItems entry items) := by
  induction items with
  | nil => exact lawful.keeps_pure ()
  | cons item rest ih =>
    obtain ⟨name, type⟩ := item
    rw [addItems]
    apply lawful.keeps_edit (fun g s => lawful.item g entry name type s)
    rintro ⟨g, error⟩
    split
    · exact lawful.keeps_fault rfl
    · exact ih

theorem keeps_createZone (kind : Script.ZoneKind)
    (h : ∀ e, resolveItems session.classes items = .error e → limits.error e) :
    limits.Keeps (createZone session kind items) := by
  apply lawful.keeps_bindExcept h
  intro resolved _
  apply lawful.keeps_bind (lawful.keeps_addNode (lawful.ends kind).1)
  intro entry
  apply lawful.keeps_bind (lawful.keeps_addNode (lawful.ends kind).2)
  intro exit
  apply lawful.keeps_graph_bind
  intro b g hb hcurrent
  apply lawful.keepsAt_bind hb (lawful.keepsAt_liftZone hb hcurrent fun _ h => lawful.pair h b.supply)
  intro _ b' hb' _
  refine lawful.keeps_graph_bind (fun b g hb hcurrent => ?_) b' hb'
  apply lawful.keepsAt_bind hb (lawful.keepsAt_liftZone hb hcurrent fun _ h => lawful.clear h b.supply)
  intro _ b' hb' _
  exact lawful.keeps_bind (lawful.keeps_addItems entry resolved) (fun _ => lawful.keeps_pure _) b' hb'

theorem keeps_itemInputs (id : NodeId) : limits.Keeps (itemInputs id) :=
  lawful.keeps_bind (lawful.keeps_node id) fun _ => lawful.keeps_pure _

theorem keeps_itemOutputs (id : NodeId) : limits.Keeps (itemOutputs id) :=
  lawful.keeps_bind (lawful.keeps_node id) fun _ => lawful.keeps_pure _

theorem keeps_bindInitial (entry : NodeId) (items : List (Param × PortId))
    (admitted : limits.AdmitsLiterals initial) :
    limits.Keeps (bindInitial session entry items initial) := by
  induction items generalizing initial with
  | nil => exact lawful.keeps_pure initial
  | cons item rest ih =>
    obtain ⟨item, port⟩ := item
    rw [bindInitial]
    split
    · exact ih admitted
    · next argument hargument =>
        have hliteral := admitted _ _ hargument
        apply lawful.keeps_bindExcept
        · intro e he
          exact lawful.plain (initialOperand_plain he)
        · intro operand hoperand
          apply lawful.keeps_bind
          · exact lawful.keeps_bindOperand (admitsOperand_initialOperand hliteral hoperand) entry port
          · exact fun _ => ih (admitted.erase item.name)

theorem keeps_timeInput (entry : NodeId) : limits.Keeps (timeInput entry) := by
  apply lawful.keeps_bind (lawful.keeps_node entry)
  intro n
  dsimp only
  split
  · exact lawful.keeps_bind (lawful.keeps_expr entry _) fun _ => lawful.keeps_pure _
  · exact lawful.keeps_pure _

theorem keeps_stateInputs (entry : NodeId) (items : List (Param × PortId)) (inputs : Inputs) :
    limits.Keeps (stateInputs entry items inputs) := by
  induction items generalizing inputs with
  | nil => exact lawful.keeps_pure inputs
  | cons item rest ih => exact lawful.keeps_bind (lawful.keeps_expr entry item.2) fun _ => ih _

theorem keeps_zoneOutputs (exit : NodeId) (items : List (Param × PortId)) (named : OrderedMap String Expr) :
    limits.Keeps (zoneOutputs exit items named) := by
  induction items generalizing named with
  | nil => exact lawful.keeps_pure named
  | cons item rest ih => exact lawful.keeps_bind (lawful.keeps_expr exit item.2) fun _ => ih _

/-- The end of a zone: its exit takes what the step returns and shows the outputs. -/
theorem keeps_zoneExit (exit : NodeId) (items : List Param) {next : List Operand}
    (admitted : ∀ operand ∈ next, limits.AdmitsOperand operand) (ends : List PortId) : limits.Keeps (do
      (next.zip ends).forM fun (value, port) => bindOperand session value exit port
      match ← itemOutputs exit with
      | [port] => return CallResult.single (← expr exit port)
      | outputs => return CallResult.named (← zoneOutputs exit (items.zip outputs) ∅)) := by
  apply lawful.keeps_bind
  · apply lawful.keeps_forM
    rintro ⟨value, port⟩ hpair
    exact lawful.keeps_bindOperand (admitted value (List.of_mem_zip hpair).1) exit port
  · intro _
    apply lawful.keeps_bind (lawful.keeps_itemOutputs exit)
    intro outputs
    split
    · exact lawful.keeps_bind (lawful.keeps_expr exit _) fun _ => lawful.keeps_pure _
    · exact lawful.keeps_bind (lawful.keeps_zoneOutputs exit _ ∅) fun _ => lawful.keeps_pure _

variable (admitted : limits.AdmitsLiterals initial) (hstep : ∀ state, limits.Keeps (step state))
  (hnext : ∀ state b b' next, exec (step state) b = (.ok next, b') → ∀ operand ∈ next, limits.AdmitsOperand operand)
include admitted hstep hnext

/-- Where the step keeps to the limits, so does the zone that runs it. -/
theorem keeps_runZone (entry exit : NodeId) (items : List Param) :
    limits.Keeps (runZone session entry exit items initial step) := by
  apply lawful.keeps_bind (lawful.keeps_itemInputs entry)
  intro starts
  apply lawful.keeps_bind (lawful.keeps_bindInitial entry _ admitted)
  intro unused
  apply lawful.keeps_bind (lawful.keeps_forM fun name _ => lawful.keeps_warn _)
  intro _
  apply lawful.keeps_bind (lawful.keeps_timeInput entry)
  intro time
  apply lawful.keeps_bind (lawful.keeps_itemOutputs entry)
  intro states
  apply lawful.keeps_bind (lawful.keeps_stateInputs entry _ time)
  intro inputs b hb
  apply lawful.keepsAt_bind hb (hstep inputs b hb)
  intro next b' hb' hexec
  have hadmitted := hnext inputs b b' next hexec
  refine lawful.keeps_bind (lawful.keeps_itemInputs exit) (fun ends => ?_) b' hb'
  split
  · exact lawful.keeps_fault rfl
  · exact lawful.keeps_zoneExit exit items hadmitted ends

variable (hitems : ∀ e, resolveItems session.classes items = .error e → limits.error e)
include hitems

theorem keeps_repetition {iterations : Operand} (hiterations : limits.AdmitsOperand iterations) :
    limits.Keeps (repetition session iterations items initial step) := by
  apply lawful.keeps_bind (lawful.keeps_createZone .repetition hitems)
  rintro ⟨entry, exit⟩
  apply lawful.keeps_bind (lawful.keeps_inputNamed entry "Iterations")
  intro port
  apply lawful.keeps_bind (lawful.keeps_bindOperand hiterations entry port)
  exact fun _ => lawful.keeps_runZone admitted hstep hnext entry exit items

theorem keeps_simulation : limits.Keeps (simulation session items initial step) := by
  apply lawful.keeps_bind (lawful.keeps_createZone .simulation hitems)
  rintro ⟨entry, exit⟩
  exact lawful.keeps_runZone admitted hstep hnext entry exit items

end Lawful

end Limits

end NodeScript
