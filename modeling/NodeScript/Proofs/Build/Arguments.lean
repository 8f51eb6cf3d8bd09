import Mathlib.Data.List.Induction
import NodeScript.Proofs.Build.Binding

/-!
# Binding arguments

Arguments are bound to groups of inputs, to properties and to the defaults of outputs. All of it
changes only the node that they are bound to, and may add constants.
-/

namespace NodeScript

open Draft List

variable {arguments : Arguments}

/-! ## Groups of inputs -/

namespace PortGroup

/-- What the ports of a group have in common. -/
def key (group : PortGroup) : String × SocketType := (group.name, group.type)

/-- The group that a port belongs to. -/
def keyOf (port : Port) : String × SocketType := (snakeCase port.name, port.type)

/-- The groups share out the ports by name and type. -/
structure Sorts (groups : List PortGroup) (ports : List Port) : Prop where
  nodup : (groups.map key).Nodup
  members : ∀ group ∈ groups, group.ports = (ports.filter fun port => keyOf port = group.key).map Port.id
  multi : ∀ group ∈ groups,
    group.multiInput = (ports.filter fun port => keyOf port = group.key).any fun port => port.multiInput
  covers : ∀ port ∈ ports, keyOf port ∈ groups.map key

theorem Sorts.add {groups : List PortGroup} {ports : List Port} (h : Sorts groups ports) (port : Port) :
    Sorts (add groups port) (ports ++ [port]) := by
  have hsame : ∀ group : PortGroup, (group.name = snakeCase port.name && group.type = port.type) =
      decide (keyOf port = group.key) := by
    intro group
    simp only [keyOf, key, Prod.mk.injEq, Bool.decide_and, eq_comm]
  unfold PortGroup.add
  simp only [hsame]
  split
  next hany =>
    have hkey : ∀ group : PortGroup, (if decide (keyOf port = group.key) = true then
        { group with ports := group.ports ++ [port.id], multiInput := group.multiInput || port.multiInput }
        else group).key = group.key := by
      intro group
      split <;> rfl
    have hkeys : (groups.map fun group => if decide (keyOf port = group.key) = true then
        { group with ports := group.ports ++ [port.id], multiInput := group.multiInput || port.multiInput }
        else group).map key = groups.map key := by
      rw [map_map]
      exact map_congr_left fun group _ => hkey group
    refine ⟨hkeys ▸ h.nodup, ?_, ?_, ?_⟩
    · intro group hgroup
      obtain ⟨old, hold, rfl⟩ := mem_map.mp hgroup
      rw [hkey old]
      by_cases hk : keyOf port = old.key
      · simp [hk, h.members old hold]
      · simp [hk, h.members old hold]
    · intro group hgroup
      obtain ⟨old, hold, rfl⟩ := mem_map.mp hgroup
      rw [hkey old]
      by_cases hk : keyOf port = old.key
      · simp [hk, h.multi old hold]
      · simp [hk, h.multi old hold]
    · intro other hother
      rw [hkeys]
      rcases mem_append.mp hother with hold | hnew
      · exact h.covers other hold
      · rw [mem_singleton.mp hnew]
        obtain ⟨group, hgroup, hk⟩ := any_eq_true.mp hany
        rw [decide_eq_true_eq] at hk
        exact hk ▸ mem_map_of_mem hgroup
  next hany =>
    have hfree : keyOf port ∉ groups.map key := by
      intro hmem
      obtain ⟨group, hgroup, hk⟩ := mem_map.mp hmem
      exact hany (any_eq_true.mpr ⟨group, hgroup, by simpa using hk.symm⟩)
    have hnone : (ports.filter fun other => keyOf other = keyOf port) = [] := by
      refine filter_eq_nil_iff.mpr fun other hother hk => hfree ?_
      rw [decide_eq_true_eq] at hk
      exact hk ▸ h.covers other hother
    have hkeys : (groups ++ [PortGroup.mk (snakeCase port.name) port.type [port.id] port.multiInput]).map key =
        groups.map key ++ [keyOf port] := by
      rw [map_append]
      rfl
    have hold : ∀ group ∈ groups, ¬ keyOf port = group.key := fun group hgroup hk =>
      hfree (hk ▸ mem_map_of_mem hgroup)
    refine ⟨?_, ?_, ?_, ?_⟩
    · rw [hkeys]
      exact nodup_append.mpr ⟨h.nodup, nodup_singleton _, fun a ha b hb hab =>
        hfree (mem_singleton.mp hb ▸ hab ▸ ha)⟩
    · intro group hgroup
      rcases mem_append.mp hgroup with hmem | hnew
      · simp [hold group hmem, h.members group hmem]
      · rw [mem_singleton.mp hnew]
        change [port.id] = ((ports ++ [port]).filter fun other => keyOf other = keyOf port).map Port.id
        rw [filter_append, hnone]
        simp
    · intro group hgroup
      rcases mem_append.mp hgroup with hmem | hnew
      · simp [hold group hmem, h.multi group hmem]
      · rw [mem_singleton.mp hnew]
        change port.multiInput = ((ports ++ [port]).filter fun other => keyOf other = keyOf port).any _
        rw [filter_append, hnone]
        simp
    · intro other hother
      rw [hkeys]
      rcases mem_append.mp hother with hmem | hnew
      · exact mem_append_left _ (h.covers other hmem)
      · rw [mem_singleton.mp hnew]
        exact mem_append_right _ (mem_singleton_self _)

theorem sorts_ofPorts (ports : List Port) : Sorts (ofPorts ports) ports := by
  induction ports using reverseRecOn with
  | nil => exact ⟨nodup_nil, by simp [ofPorts], by simp [ofPorts], by simp⟩
  | append_singleton ports port ih =>
    rw [ofPorts, foldl_append]
    exact ih.add port

variable {groups : List PortGroup} {ports : List Port}

theorem Sorts.exists_port (h : Sorts groups ports) {portId : PortId}
    (hmem : portId ∈ groups.flatMap PortGroup.ports) :
    ∃ port ∈ ports, port.id = portId := by
  obtain ⟨group, hgroup, hport⟩ := mem_flatMap.mp hmem
  rw [h.members group hgroup] at hport
  obtain ⟨port, hfilter, hid⟩ := mem_map.mp hport
  exact ⟨port, mem_of_mem_filter hfilter, hid⟩

/-- No port is in two groups. -/
theorem Sorts.nodup_ports (h : Sorts groups ports) (ids : (ports.map Port.id).Nodup) :
    (groups.flatMap PortGroup.ports).Nodup := by
  refine nodup_flatMap.mpr ⟨fun group hgroup => ?_, ?_⟩
  · rw [h.members group hgroup]
    exact ids.sublist (filter_sublist.map _)
  · refine (pairwise_map.mp h.nodup).imp_of_mem fun {a b} ha hb hne => ?_
    intro portId hmem hmem'
    rw [h.members a ha] at hmem
    rw [h.members b hb] at hmem'
    obtain ⟨port, hport, hid⟩ := mem_map.mp hmem
    obtain ⟨port', hport', hid'⟩ := mem_map.mp hmem'
    obtain ⟨hin, hkey⟩ := mem_filter.mp hport
    obtain ⟨hin', hkey'⟩ := mem_filter.mp hport'
    rw [Node.eq_of_id_eq ids hin hin' (hid.trans hid'.symm), decide_eq_true_eq] at hkey
    rw [decide_eq_true_eq] at hkey'
    exact hne (hkey.symm.trans hkey')

end PortGroup

variable {name : String}

/-- There are no parameter groups among the arguments. -/
def Arguments.Plain (arguments : Arguments) : Prop :=
  ∀ name argument, arguments.get? name = some argument → ∀ group, argument ≠ .group group

theorem foldl_spread_of_plain {pairs : List (String × Argument)} (plain : ∀ e ∈ pairs, ∀ group, e.2 ≠ .group group)
    (spread : Arguments) : pairs.foldl (fun spread (name, argument) =>
      match argument with
      | .group group => group.fields.entries.foldl
          (fun spread (field, expr) => spread.insert field (.expr expr)) spread
      | other => spread.insert name other) spread = pairs.foldl (fun m e => m.insert e.1 e.2) spread := by
  induction pairs generalizing spread with
  | nil => rfl
  | cons e rest ih =>
    rw [foldl_cons, foldl_cons, ← ih fun e he => plain e (.tail _ he)]
    obtain ⟨name, argument⟩ := e
    cases argument with
    | group group => exact absurd rfl (plain _ mem_cons_self group)
    | _ => rfl

theorem spreadGroups_eq (plain : arguments.Plain) : spreadGroups arguments = arguments := by
  have hplain : ∀ e ∈ arguments.entries, ∀ group, e.2 ≠ .group group := fun e he =>
    plain e.1 e.2 (OrderedMap.get?_eq_some_iff.mpr he)
  refine (foldl_spread_of_plain hplain ∅).trans (OrderedMap.ext ?_)
  exact OrderedMap.entries_foldl_insert arguments.nodup

/-! ## References -/

theorem PropertyValue.eq_graph {value : PropertyValue} (h : value.graph? = some name) : value = .graph name := by
  cases value with
  | graph found =>
    cases h
    rfl
  | _ => cases h

/-- Only texts stand for references. -/
theorem PropertyDecl.eq_of_valueOf_graph {decl : PropertyDecl} {argument : Argument}
    (h : decl.valueOf argument = .ok (.graph name)) :
    argument = .choice name ∨ argument = .literal (.text name) := by
  unfold PropertyDecl.valueOf at h
  cases hkind : decl.kind with
  | graph =>
    cases argument with
    | choice chosen =>
      simp only [hkind, Except.ok.injEq, PropertyValue.graph.injEq] at h
      exact Or.inl (congrArg _ h)
    | literal value =>
      cases value with
      | text text =>
        simp only [hkind, Except.ok.injEq, PropertyValue.graph.injEq] at h
        exact Or.inr (by rw [h])
      | _ => simp [hkind] at h
    | _ => simp [hkind] at h
  | vector =>
    simp only [hkind] at h
    split at h
    · next hvalue =>
        split at hvalue
        · cases hvalue
          cases h
        · cases hvalue
    · cases h
  | _ =>
    cases argument with
    | literal value => cases value <;> simp [hkind] at h
    | _ => simp [hkind] at h

/-- The arguments give a name for the reference. -/
def Arguments.Refers (arguments : Arguments) (name : String) : Prop :=
  ∃ argument, ∃ decl : PropertyDecl, arguments.get? graphProperty = some argument ∧
    decl.valueOf argument = .ok (.graph name)

namespace Site

variable {site : Site} {draft draft' : Draft} {path : List NodeId} {α : Type} {before : Draft} {id : NodeId}
  {node : Node}

/-- A loop keeps a condition on what is left to do. -/
theorem runs_forM {f : α → BuildM PUnit} {inv : List α → Draft → Prop}
    (step : ∀ a rest draft, draft.Sound site.rules → inv (a :: rest) draft →
      site.Runs (f a) draft fun _ draft' => inv rest draft')
    (as : List α) (sound : draft.Sound site.rules) (h : inv as draft) :
    site.Runs (as.forM f) draft fun _ draft' => inv [] draft' := by
  induction as generalizing draft with
  | nil => exact Runs.pure h
  | cons a rest ih =>
    exact Runs.bind sound (step a rest draft sound h) fun _ draft' sound' _ h' => ih sound' h'

/-! ## Arguments -/

section Arguments

variable {id : NodeId} {portId : PortId} {argument : Argument} {items : List Argument} {group : PortGroup}
  {β : Type}

/-- An argument can be bound to the input. -/
structure Ready (site : Site) (draft : Draft) (path : List NodeId) (id : NodeId) : Prop where
  standard : site.session.IsStandard
  depth : path.length ≤ site.rules.depth
  reads : (draft.info id).reads = path
  found : (draft.graph.node? id).isSome = true

theorem Ready.later (h : site.Ready draft path id) (later : Later draft draft') : site.Ready draft' path id :=
  { h with
    reads := by rw [later.info id h.found]; exact h.reads
    found := later.found id h.found }

section

variable (sound : draft.Sound site.rules) (ready : site.Ready draft path id) (vacant : draft.Vacant id portId)
include sound ready vacant

theorem runs_bindLiteralOf (argument : Argument) (name : String) : site.Runs
      (match argument.literal? with
      | some value => Build.bindLiteral site.session value id portId
      | none => throw (.argumentShape name .notAValue)) draft fun _ draft' =>
        Frame (· = id) (· = portId) draft draft' := by
  cases argument.literal? with
  | none => exact Runs.throw
  | some value =>
    exact (runs_bindLiteral sound ready.standard ready.depth vacant ready.reads value).mono fun _ _ h => h.1

theorem runs_bindPlain (valid : argument.Over (site.Valid draft path)) (name : String) :
    site.Runs (Build.bindPlain site.session name id portId argument) draft fun _ draft' =>
      Frame (· = id) (· = portId) draft draft' := by
  have hliteral := runs_bindLiteralOf sound ready vacant argument name
  cases valid with
  | expr h =>
    refine (runs_link sound h vacant.toLinkable ready.reads).mono fun _ draft' ⟨frame, _⟩ => ?_
    exact frame.touching
  | literal value => exact hliteral
  | choice chosen => exact hliteral
  | list h => exact hliteral
  | group h => exact Runs.throw

omit sound ready vacant in
/-- Values are linked to one input after another. -/
theorem runs_linkAll {f : Argument → BuildM PUnit} (hf : ∀ source, f (.expr source) = Build.link source id portId)
    (hexprs : items.all Argument.isExpr = true) (sound : draft.Sound site.rules) (ready : site.Ready draft path id)
    (linkable : draft.Linkable id portId) (valid : ∀ item ∈ items, item.Over (site.Valid draft path)) :
    site.Runs (items.forM f) draft fun _ draft' => Frame (fun _ => False) (· = portId) draft draft' := by
  refine (@runs_forM site draft _ f (fun rest draft' =>
    Frame (fun _ => False) (· = portId) draft draft' ∧ site.Ready draft' path id ∧ draft'.Linkable id portId ∧
      rest ⊆ items) ?_ items sound ⟨.refl draft, ready, linkable, Subset.refl items⟩).mono fun _ _ h => h.1
  · rintro item rest draft₁ sound₁ ⟨frame, ready₁, linkable₁, hsub⟩
    have hitem : item ∈ items := hsub mem_cons_self
    have hisExpr := all_eq_true.mp hexprs item hitem
    have hover := valid item hitem
    cases hover with
    | expr h =>
      rw [hf]
      refine (runs_link sound₁ (h.later frame.later) linkable₁ ready₁.reads).mono fun _ draft₂ ⟨frame₂, _⟩ => ?_
      refine ⟨frame.trans frame₂, ready₁.later frame₂.later, ?_, fun x hx => hsub (.tail _ hx)⟩
      -- A link leaves the node as it is.
      obtain ⟨node, port, hnode, hrest⟩ := linkable₁.port
      refine ⟨frame₂.not_done hnode linkable₁.opened, node, port, frame₂.node?_eq hnode not_false, ?_⟩
      rw [frame₂.later.info id ready₁.found]
      exact hrest
    | literal value => cases hisExpr
    | choice chosen => cases hisExpr
    | list h => cases hisExpr
    | group h => cases hisExpr

theorem runs_bindArgument (valid : argument.Over (site.Valid draft path)) (name : String) :
    site.Runs (Build.bindArgument site.session name id portId argument) draft fun _ draft' =>
      Frame (· = id) (· = portId) draft draft' := by
  unfold Build.bindArgument
  split
  next items =>
    split
    next hexprs =>
      cases valid with
      | list h =>
        have hall : items.all Argument.isExpr = true := by
          rw [Argument.isExprList, Bool.and_eq_true] at hexprs
          exact hexprs.2
        refine (runs_linkAll (fun _ => rfl) hall sound ready vacant.toLinkable h).mono fun _ _ frame => ?_
        exact frame.touching
    next => exact runs_bindPlain sound ready vacant valid name
  next => exact runs_bindPlain sound ready vacant valid name

end

/-- Values are bound to different inputs one after another, and what has been bound stays. -/
theorem runs_bindEach {as : List α} {f : α → BuildM PUnit} (port : α → PortId) {Q : α → Draft → Prop}
    (keeps : ∀ {a draft draft' ports}, Q a draft → draft.Sound site.rules → Frame (· = id) ports draft draft' →
      ¬ ports (port a) → Q a draft')
    (nodup : (as.map port).Nodup) (sound : draft.Sound site.rules) (ready : site.Ready draft path id)
    (vacant : ∀ a ∈ as, draft.Vacant id (port a))
    (step : ∀ {draft'}, ∀ a ∈ as, draft'.Sound site.rules → Later draft draft' → site.Ready draft' path id →
      draft'.Vacant id (port a) →
        site.Runs (f a) draft' fun _ draft'' => Frame (· = id) (· = port a) draft' draft'' ∧ Q a draft'') :
    site.Runs (as.forM f) draft fun _ draft' => Frame (· = id) (· ∈ as.map port) draft draft' ∧
      ∀ a ∈ as, Q a draft' := by
  induction as generalizing draft with
  | nil => exact Runs.pure ⟨.refl draft, nofun⟩
  | cons a rest ih =>
    rw [map_cons, nodup_cons] at nodup
    refine Runs.bind sound (step a mem_cons_self sound (.refl draft) ready (vacant a mem_cons_self)) ?_
    rintro _ draft₁ sound₁ later₁ ⟨frame₁, held₁⟩
    refine (ih nodup.2 sound₁ (ready.later later₁) (fun other hother => ?_) fun other hother sound' later =>
      step other (.tail _ hother) sound' (later₁.trans later)).mono fun _ draft₂ ⟨frame₂, held₂⟩ =>
        ⟨frame₁.cons frame₂, fun other hother => ?_⟩
    · refine (vacant other (.tail _ hother)).frame sound frame₁ fun heq => ?_
      exact nodup.1 (heq ▸ mem_map_of_mem hother)
    · rcases mem_cons.mp hother with rfl | hother
      · exact keeps held₁ sound₁ frame₂ nodup.1
      · exact held₂ other hother

theorem runs_bindShares {as : List α} (value : α → Argument) (port : α → PortId)
    (nodup : (as.map port).Nodup) (sound : draft.Sound site.rules) (ready : site.Ready draft path id)
    (vacant : ∀ a ∈ as, draft.Vacant id (port a))
    (valid : ∀ a ∈ as, (value a).Over (site.Valid draft path)) (name : String) :
    site.Runs (as.forM fun a => Build.bindArgument site.session name id (port a) (value a)) draft
      fun _ draft' => Frame (· = id) (· ∈ as.map port) draft draft' := by
  refine (runs_bindEach port (Q := fun _ _ => True) (fun _ _ _ _ => trivial) nodup sound ready vacant
    fun a ha sound' later ready' vacant' => ?_).mono fun _ _ h => h.1
  exact (runs_bindArgument sound' ready' vacant' ((valid a ha).mono fun _ h => h.later later) name).mono
    fun _ _ frame => ⟨frame, trivial⟩

theorem forM_map (g : α → β) (f : β → BuildM PUnit) (as : List α) :
    (as.map g).forM f = as.forM fun a => f (g a) := by
  induction as with
  | nil => rfl
  | cons a rest ih => exact congrArg (fun m => f (g a) >>= fun _ => m) ih

theorem map_snd_zip_prefix (as : List α) (bs : List β) : (as.zip bs).map Prod.snd <+: bs := by
  induction as generalizing bs with
  | nil => exact nil_prefix
  | cons a as ih =>
    cases bs with
    | nil => exact nil_prefix
    | cons b bs => exact prefix_cons_inj b |>.mpr (ih bs)

/-- All values are linked to every input of a group. -/
theorem runs_linkGroup (hexprs : items.all Argument.isExpr = true) (nodup : group.ports.Nodup)
    (sound : draft.Sound site.rules) (ready : site.Ready draft path id)
    (vacant : ∀ port ∈ group.ports, draft.Vacant id port)
    (valid : ∀ item ∈ items, item.Over (site.Valid draft path)) :
    site.Runs (group.ports.forM fun port => items.forM (Build.bindArgument site.session group.name id port)) draft
      fun _ draft' => Frame (· = id) (· ∈ group.ports) draft draft' := by
  refine (runs_bindEach (fun port => port) (Q := fun _ _ => True) (fun _ _ _ _ => trivial) (by simpa) sound
    ready vacant fun port _ sound' later ready' vacant' => ?_).mono fun _ _ h => by simpa using h.1
  refine (runs_linkAll (fun _ => rfl) hexprs sound' ready' vacant'.toLinkable fun item hitem =>
    (valid item hitem).mono fun _ h => h.later later).mono fun _ _ frame => ⟨frame.touching, trivial⟩

theorem runs_bindGroup (sound : draft.Sound site.rules) (ready : site.Ready draft path id)
    (nodup : group.ports.Nodup) (vacant : ∀ port ∈ group.ports, draft.Vacant id port)
    (valid : argument.Over (site.Valid draft path)) :
    site.Runs (Build.bindGroup site.session id group argument) draft fun _ draft' =>
      Frame (· = id) (· ∈ group.ports) draft draft' := by
  have hall : site.Runs (group.ports.forM fun port => Build.bindArgument site.session group.name id port argument)
      draft fun _ draft' => Frame (· = id) (· ∈ group.ports) draft draft' := by
    have heach := runs_bindShares (fun _ => argument) (fun port => port) (by simpa using nodup) sound
      ready vacant (fun _ _ => valid) group.name
    simpa using heach
  unfold Build.bindGroup
  split
  next items =>
    cases valid with
    | list hvalid =>
      split
      next hmulti =>
        rw [Bool.and_eq_true, Argument.isExprList, Bool.and_eq_true] at hmulti
        exact runs_linkGroup hmulti.2.2 nodup sound ready vacant hvalid
      next =>
        split
        next =>
          split
          next => exact Runs.throw
          next =>
            split
            next => exact hall
            next =>
              have hports := map_snd_zip_prefix items group.ports
              refine (runs_bindShares Prod.fst Prod.snd
                (nodup.sublist hports.sublist) sound ready (fun pair hpair => ?_)
                (fun pair hpair => ?_) group.name).mono fun _ _ frame =>
                  frame.mono fun _ h => hports.subset h
              · exact vacant _ (of_mem_zip hpair).2
              · exact hvalid _ (of_mem_zip hpair).1
        next => exact hall
  next => exact hall

theorem runs_bindGroups {groups : List PortGroup} (nodup : (groups.flatMap PortGroup.ports).Nodup)
    (sound : draft.Sound site.rules) (ready : site.Ready draft path id)
    (vacant : ∀ port ∈ groups.flatMap PortGroup.ports, draft.Vacant id port)
    (valid : ∀ name argument, arguments.get? name = some argument → argument.Over (site.Valid draft path)) :
    site.Runs (Build.bindGroups site.session id arguments groups) draft fun _ draft' =>
      Frame (· = id) (· ∈ groups.flatMap PortGroup.ports) draft draft' := by
  induction groups generalizing draft with
  | nil => exact Runs.pure (.refl draft)
  | cons group rest ih =>
    rw [flatMap_cons] at nodup vacant ⊢
    obtain ⟨hgroup, hrest, hdisjoint⟩ := nodup_append.mp nodup
    have second : ∀ draft₁, draft₁.Sound site.rules → Frame (· = id) (· ∈ group.ports) draft draft₁ →
        site.Runs (Build.bindGroups site.session id arguments rest) draft₁ fun _ draft' =>
          Frame (· = id) (· ∈ group.ports ++ rest.flatMap PortGroup.ports) draft draft' := by
      intro draft₁ sound₁ frame
      refine (ih hrest sound₁ (ready.later frame.later) (fun port hport => ?_) fun name argument hget =>
        (valid name argument hget).mono fun _ h => h.later frame.later).mono fun _ draft₂ frame₂ => ?_
      · refine (vacant port (mem_append_right _ hport)).frame sound frame fun hmem => ?_
        exact hdisjoint port hmem port hport rfl
      · exact (frame.mono fun _ h => mem_append_left _ h).trans
          (frame₂.mono fun _ h => mem_append_right _ h)
    unfold Build.bindGroups
    cases hget : arguments.get? group.name with
    | none => exact second draft sound (.refl draft)
    | some argument =>
      refine Runs.bind sound (runs_bindGroup sound ready hgroup (fun port hport =>
        vacant port (mem_append_left _ hport)) (valid _ _ hget)) fun _ draft₁ sound₁ _ => second draft₁ sound₁

end Arguments

/-! ## Properties -/

/-- A node under construction to which nothing has been bound. -/
structure Unbound (before draft : Draft) (id : NodeId) (node : Node) : Prop extends Opened before draft id node where
  free : ∀ port ∈ node.inputs, draft.graph.linksTo port.id = []
  pristine : ∀ portId, node.Pristine (draft.info id).shape portId

theorem Unbound.revise {node' : Node} (h : Unbound before draft id node)
    (later : Later draft (draft.revised id node')) (hrole : node'.role = node.role) (same : node.SamePorts node')
    (pristine : ∀ portId, node'.Pristine (draft.info id).shape portId) :
    Unbound before (draft.revised id node') id node' where
  toOpened := h.toOpened.revise later hrole same
  free := by
    intro port hport
    have hmem : port.id ∈ node.inputs.map Port.id := same.inputs ▸ mem_map_of_mem hport
    obtain ⟨old, hold, hid⟩ := mem_map.mp hmem
    rw [← hid]
    exact h.free old hold
  pristine := pristine

theorem runs_bindProperties (sound : draft.Sound site.rules) (unbound : Unbound before draft id node)
    (decls : List PropertyDecl) (arguments : Arguments) :
    site.Runs (Build.bindProperties id decls arguments) draft fun rest draft' =>
      ∃ node', Unbound before draft' id node' ∧ node'.pairedOutput = node.pairedOutput ∧
        (∀ name argument, rest.get? name = some argument → arguments.get? name = some argument) ∧
        (arguments.get? graphProperty = none → node'.graph? = node.graph?) ∧
        ∀ text, node'.graph? = some text → node.graph? = some text ∨ arguments.Refers text := by
  induction decls generalizing draft node arguments with
  | nil => exact Runs.pure ⟨node, unbound, rfl, fun _ _ h => h, fun _ => rfl, fun _ h => Or.inl h⟩
  | cons decl rest ih =>
    unfold Build.bindProperties
    cases hget : arguments.get? decl.name with
    | none => exact ih sound unbound arguments
    | some argument =>
      refine Runs.bindExcept sound fun value hvalue => ?_
      refine Runs.bind sound (runs_setProperty sound unbound.found unbound.opened unbound.inner unbound.free
        decl.name value) ?_
      rintro _ draft₁ sound₁ later ⟨node₁, hset, rfl⟩
      obtain ⟨shape, same⟩ := (unbound.shape sound).setProperty hset
      have unbound₁ := unbound.revise later (shape.role.trans (unbound.shape sound).role.symm) same
        fun portId => (unbound.pristine portId).setProperty hset
      refine (ih sound₁ unbound₁ (arguments.erase decl.name)).mono ?_
      rintro left draft' ⟨node', unbound', hpaired, hleft, hgraph, hrefers⟩
      refine ⟨node', unbound', hpaired.trans same.pairedOutput, fun name found hfound => ?_, fun hnone => ?_,
        fun text htext => ?_⟩
      · have herase := hleft name found hfound
        rw [OrderedMap.get?_erase] at herase
        split at herase
        · cases herase
        · exact herase
      · have hne : graphProperty ≠ decl.name := by
          rintro heq
          rw [← heq, hnone] at hget
          cases hget
        have hold : node₁.graph? = node.graph? :=
          congrArg (fun found => found.bind PropertyValue.graph?) (Node.property?_setProperty hset hne)
        refine (hgraph ?_).trans hold
        rw [OrderedMap.get?_erase, if_neg hne]
        exact hnone
      · rcases hrefers text htext with hnode | ⟨given, other, hgiven, hother⟩
        · by_cases hname : graphProperty = decl.name
          · have hset' : node₁.graph? = value.graph? := by
              rw [Node.graph?, hname, Node.property?_setProperty_self hset]
              rfl
            rw [hset'] at hnode
            refine Or.inr ⟨argument, decl, hname ▸ hget, hvalue.trans ?_⟩
            rw [PropertyValue.eq_graph hnode]
          · have hold : node₁.graph? = node.graph? :=
              congrArg (fun found => found.bind PropertyValue.graph?) (Node.property?_setProperty hset hname)
            exact Or.inl (hold ▸ hnode)
        · rw [OrderedMap.get?_erase] at hgiven
          split at hgiven
          · cases hgiven
          · exact Or.inr ⟨given, other, hgiven, hother⟩

/-! ## Output defaults -/

theorem runs_bindOutputDefault (sound : draft.Sound site.rules)
    (opened : Opened before draft id node) (name : String)
    (argument : Argument) :
    site.Runs (Build.bindOutputDefault id name argument) draft fun _ draft' =>
      Frame (· = id) (fun port => before.next ≤ port.code) draft draft' := by
  unfold Build.bindOutputDefault
  refine Runs.bindRead sound (runs_node opened.found) fun found hfound => ?_
  rw [hfound]
  cases hfind : node.enabledOutputs.find? fun port => port.default.isSome && snakeCase port.name = name with
  | none => exact Runs.pure (.refl draft)
  | some port =>
    have hmem : port ∈ node.outputs := mem_of_mem_filter (mem_of_find?_eq_some hfind)
    have hport : node.port? port.id = some port :=
      Node.port?_of_mem (sound.distinct opened.found) (mem_append_right _ hmem)
    cases hvalue : argument.literal?.bind port.type.coerce? with
    | none => simpa only [hvalue] using Runs.throw
    | some value =>
      simp only [hvalue]
      have hcoerce : port.type.coerce? value = some value := by
        obtain ⟨given, _, hgiven⟩ := Option.bind_eq_some_iff.mp hvalue
        exact SocketType.coerce?_idem hgiven
      have hdefault : port.default.isSome = true := by
        have hpicked := find?_some hfind
        rw [Bool.and_eq_true] at hpicked
        exact hpicked.1
      refine Runs.bind sound (runs_setDefault sound opened.found opened.opened opened.inner hport
        (linksTo_output sound opened.found hmem) hcoerce (.inr hdefault)) ?_
      rintro _ draft₁ sound₁ later rfl
      refine Runs.pure ((frame_revised later opened.found (Node.Rebound.updatePort node port.id value)).mono
        fun portId hportId => ?_)
      rw [hportId]
      exact opened.ports port (mem_append_right _ hmem)

theorem runs_bindRest (sound : draft.Sound site.rules) (opened : Opened before draft id node)
    (arguments : List (String × Argument)) :
    site.Runs (Build.bindRest id arguments) draft fun _ draft' =>
      Frame (· = id) (fun port => before.next ≤ port.code) draft draft' := by
  induction arguments generalizing draft node with
  | nil => exact Runs.pure (.refl draft)
  | cons first rest ih =>
    obtain ⟨name, argument⟩ := first
    unfold Build.bindRest
    refine Runs.bind sound (runs_bindOutputDefault sound opened name argument) ?_
    rintro used draft₁ sound₁ _ frame
    obtain ⟨node₁, opened₁, _⟩ := opened.frame frame
    have hrest := (ih sound₁ opened₁).mono fun _ draft₂ frame₂ => frame.trans frame₂
    cases used with
    | true => exact hrest
    | false =>
      refine Runs.bindRead sound₁ (runs_node opened₁.found) fun found _ => ?_
      exact Runs.bindRead sound₁ (Runs.warn _) fun _ _ => hrest

end Site

end NodeScript
