import Mathlib.Data.List.Nodup
import NodeScript.Proofs.Build.Supply
import NodeScript.Proofs.Catalog.Standard

/-!
# The shape of a node

A node shows the sockets of a description: its ports stand at their places, are enabled as the
properties say, and hold the written default or another literal of their type. Assigning properties
and defaults keeps the shape.
-/

namespace NodeScript

open List

/-- Whether the socket is enabled under the cases of a node's properties. -/
def Socket.enabledUnder (chosen : String → Option String) (socket : Socket) : Bool :=
  match socket.enabledWhen with
  | none => socket.enabled
  | some condition => condition.holds (chosen condition.property)

/-- Refreshing a port changes nothing but whether it is enabled. -/
theorem Node.refreshPort_eq (chosen : String → Option String) (port : Port) :
    refreshPort chosen port = { port with enabled := port.enabledUnder chosen } := by
  obtain ⟨⟨name, direction, type, default, hideValue, enabled, multi, enabledWhen, zoneItem⟩, id⟩ := port
  cases enabledWhen <;> rfl

/-- The port stands for the socket under some cases. -/
structure Port.Fits (chosen : String → Option String) (socket : Socket) (port : Port) : Prop where
  name : port.name = socket.name
  direction : port.direction = socket.direction
  type : port.type = socket.type
  hideValue : port.hideValue = socket.hideValue
  multiInput : port.multiInput = socket.multiInput
  enabledWhen : port.enabledWhen = socket.enabledWhen
  zoneItem : port.zoneItem = socket.zoneItem
  enabled : port.enabled = socket.enabledUnder chosen
  default : port.default = socket.default ∨ ∃ v, port.default = some v ∧ socket.type.coerce? v = some v

namespace Port.Fits

variable {chosen chosen' : String → Option String} {socket : Socket} {port : Port}

/-- Enabling looks at the written state of a socket only if there is no condition. -/
theorem enabledUnder_eq (h : port.Fits chosen socket) :
    port.toSocket.enabledUnder chosen' = socket.enabledUnder chosen' := by
  have henabled := h.enabled
  unfold Socket.enabledUnder at henabled ⊢
  rw [h.enabledWhen]
  cases hwhen : socket.enabledWhen with
  | none =>
    rw [hwhen] at henabled
    exact henabled
  | some condition => rfl

theorem refresh (h : port.Fits chosen socket) : (Node.refreshPort chosen' port).Fits chosen' socket := by
  rw [Node.refreshPort_eq]
  exact { h with enabled := h.enabledUnder_eq }

theorem withDefault (h : port.Fits chosen socket) {value : Literal}
    (hvalue : socket.type.coerce? value = some value) :
    ({ port with default := some value } : Port).Fits chosen socket :=
  { h with default := Or.inr ⟨value, rfl, hvalue⟩ }

/-- A port of the socket's form that has just been refreshed. -/
theorem ofSocket (h : port.toSocket = socket) : (Node.refreshPort chosen port).Fits chosen socket := by
  subst h
  rw [Node.refreshPort_eq]
  exact ⟨rfl, rfl, rfl, rfl, rfl, rfl, rfl, rfl, Or.inl rfl⟩

end Port.Fits

/-- The port has a default only if the socket has one. -/
def Port.Silent (socket : Socket) (port : Port) : Prop := socket.default = none → port.default = none

/-- What a type accepts it keeps as it is. -/
theorem SocketType.coerce?_idem {type : SocketType} {value held : Literal}
    (h : type.coerce? value = some held) : type.coerce? held = some held := by
  cases type <;> cases value <;> cases h <;> rfl

namespace Node

variable {name : String} {value : PropertyValue} {sockets : List Socket} {ports : List Port} {id : PortId}
  {port port' : Port} {kind : NodeKind}

/-- The chosen case of an enumerated property. -/
def chosen (node : Node) (name : String) : Option String := (node.property? name).bind PropertyValue.chosen?

/-- The node shows the sockets of a description. -/
structure Instantiates (spec : KindSpec) (node : Node) : Prop where
  kind : node.kind = spec.id
  name : node.name = spec.name
  role : node.role = spec.role
  decls : node.properties.map Property.decl = spec.properties
  accepted : ∀ property ∈ node.properties, property.decl.accepts property.value = true
  inputs : Forall₂ (Port.Fits node.chosen) spec.inputs node.inputs
  outputs : Forall₂ (Port.Fits node.chosen) spec.outputs node.outputs
  silent : Forall₂ Port.Silent spec.outputs node.outputs

section UpdateFirst

variable {α β : Type} {test : α → Bool} {f : α → α}

theorem mem_updateFirst {a : α} {as : List α} (h : a ∈ updateFirst test f as) :
    a ∈ as ∨ ∃ b, as.find? test = some b ∧ a = f b := by
  induction as with
  | nil => cases h
  | cons b rest ih =>
    unfold updateFirst at h
    rw [find?_cons]
    by_cases htest : test b = true
    · simp only [htest, if_true, mem_cons] at h
      rcases h with rfl | hmem
      · exact Or.inr ⟨b, by simp [htest], rfl⟩
      · exact Or.inl (mem_cons_of_mem b hmem)
    · simp only [htest, if_false, Bool.false_eq_true, mem_cons] at h ⊢
      rcases h with rfl | hmem
      · exact Or.inl (Or.inl rfl)
      · rcases ih hmem with hrest | hfound
        · exact Or.inl (Or.inr hrest)
        · exact Or.inr hfound

/-- A change that keeps a feature of the elements keeps the list of features. -/
theorem map_updateFirst {g : α → β} (h : ∀ a, g (f a) = g a) (as : List α) :
    (updateFirst test f as).map g = as.map g := by
  induction as with
  | nil => rfl
  | cons a rest ih =>
    unfold updateFirst
    split
    next => simp [h]
    next => simp [ih]

/-- Elements that the test does not pick stay. -/
theorem mem_updateFirst_of_not {a : α} {as : List α} (hmem : a ∈ as) (h : test a = false) :
    a ∈ updateFirst test f as := by
  induction as with
  | nil => cases hmem
  | cons b rest ih =>
    unfold updateFirst
    rcases mem_cons.mp hmem with rfl | hrest
    · simp [h]
    · split
      next => exact mem_cons_of_mem _ hrest
      next => exact mem_cons_of_mem _ (ih hrest)

theorem forall₂_updateFirst {r : β → α → Prop} {bs : List β} {as : List α}
    (h : Forall₂ r bs as) (hf : ∀ b a, r b a → as.find? test = some a → r b (f a)) :
    Forall₂ r bs (updateFirst test f as) := by
  induction h with
  | nil => exact .nil
  | @cons b a bs as hab hrest ih =>
    unfold updateFirst
    by_cases htest : test a = true
    · rw [if_pos htest]
      exact .cons (hf b a hab (by simp [htest])) hrest
    · rw [if_neg htest]
      refine .cons hab (ih fun b' a' hab' hfind => hf b' a' hab' ?_)
      rw [find?_cons]
      simpa [htest] using hfind

/-- A search for something else finds what it found before. -/
theorem find?_updateFirst {goal : α → Bool} (hgoal : ∀ a, test a = true → goal (f a) = goal a)
    (hother : ∀ a, test a = true → goal a = false) (as : List α) :
    (updateFirst test f as).find? goal = as.find? goal := by
  induction as with
  | nil => rfl
  | cons a rest ih =>
    unfold updateFirst
    by_cases htest : test a = true
    · rw [if_pos htest, find?_cons, find?_cons, hgoal a htest, hother a htest]
    · rw [if_neg htest, find?_cons, find?_cons, ih]

/-- A search for what is changed finds the changed element. -/
theorem find?_updateFirst_self (h : ∀ a, test (f a) = test a) (as : List α) :
    (updateFirst test f as).find? test = (as.find? test).map f := by
  induction as with
  | nil => rfl
  | cons a rest ih =>
    unfold updateFirst
    by_cases htest : test a = true
    · rw [if_pos htest, find?_cons, find?_cons, h, htest]
      rfl
    · rw [Bool.not_eq_true] at htest
      rw [htest, if_neg Bool.false_ne_true, find?_cons, find?_cons, htest, ih]

/-- Without such an element nothing changes. -/
theorem updateFirst_of_find?_none {as : List α} (h : as.find? test = none) (f : α → α) :
    updateFirst test f as = as := by
  induction as with
  | nil => rfl
  | cons a rest ih =>
    rw [find?_cons] at h
    cases htest : test a with
    | true => simp [htest] at h
    | false =>
      simp only [htest] at h
      rw [updateFirst, htest, if_neg Bool.false_ne_true, ih h]

/-- Changes of different elements commute. -/
theorem updateFirst_comm {test' : α → Bool} {f' : α → α} (hother : ∀ a, test a = true → test' a = false)
    (h : ∀ a, test a = true → test' (f a) = false) (h' : ∀ a, test' a = true → test (f' a) = false) (as : List α) :
    updateFirst test' f' (updateFirst test f as) = updateFirst test f (updateFirst test' f' as) := by
  induction as with
  | nil => rfl
  | cons a rest ih =>
    by_cases htest : test a = true
    · have hother := hother a htest
      have hchanged := h a htest
      simp [updateFirst, htest, hother, hchanged]
    · by_cases htest' : test' a = true
      · have hchanged := h' a htest'
        simp [updateFirst, htest, htest', hchanged]
      · simp [updateFirst, htest, htest', ih]

end UpdateFirst

/-! ## Assigning properties and defaults -/

variable {node node' : Node} {spec : KindSpec}

theorem setProperty_eq_ok :
    node.setProperty name value = .ok node' ↔
      ∃ property, node.properties.find? (fun p => p.decl.name = name) = some property ∧
        property.decl.accepts value = true ∧
        node' = { node with
          properties := updateFirst (fun p => p.decl.name = name)
            (fun p => { p with value }) node.properties }.refresh := by
  unfold setProperty
  cases node.properties.find? (fun p => p.decl.name = name) with
  | none => simp
  | some property =>
    by_cases haccepts : property.decl.accepts value = true
    · simp only [haccepts, if_true, Except.ok.injEq, Option.some.injEq, exists_eq_left', true_and]
      exact eq_comm
    · simp [haccepts]

/-- Assigning one property leaves the others. -/
theorem property?_setProperty {other : String}
    (hset : node.setProperty name value = .ok node') (hne : other ≠ name) :
    node'.property? other = node.property? other := by
  obtain ⟨property, _, _, rfl⟩ := setProperty_eq_ok.mp hset
  have hfind := @find?_updateFirst _ (fun p => decide (p.decl.name = name)) (fun p : Property => { p with value })
    (fun p => decide (p.decl.name = other)) (fun _ _ => rfl) (fun p hp => by
      rw [decide_eq_true_eq] at hp
      rw [decide_eq_false_iff_not, hp]
      exact fun h => hne h.symm) node.properties
  exact congrArg (Option.map Property.value) hfind

/-- An assigned property has its value. -/
theorem property?_setProperty_self (hset : node.setProperty name value = .ok node') :
    node'.property? name = some value := by
  obtain ⟨property, hfind, _, rfl⟩ := setProperty_eq_ok.mp hset
  have hself :=
    @find?_updateFirst_self _ (fun p => decide (p.decl.name = name)) (fun p : Property => { p with value })
    (fun _ => rfl) node.properties
  rw [hfind] at hself
  exact congrArg (Option.map Property.value) hself

/-- Port identities stay at their places. -/
structure SamePorts (node node' : Node) : Prop where
  id : node'.id = node.id
  inputs : node'.inputs.map Port.id = node.inputs.map Port.id
  outputs : node'.outputs.map Port.id = node.outputs.map Port.id
  pairedOutput : node'.pairedOutput = node.pairedOutput

theorem map_id_refreshPort (chosen : String → Option String) (ports : List Port) :
    (ports.map (refreshPort chosen)).map Port.id = ports.map Port.id := by
  rw [map_map]
  refine map_congr_left fun port _ => ?_
  simp [refreshPort_eq]

theorem samePorts_setProperty (hset : node.setProperty name value = .ok node') : node.SamePorts node' := by
  obtain ⟨property, _, _, rfl⟩ := setProperty_eq_ok.mp hset
  exact ⟨rfl, map_id_refreshPort _ _, map_id_refreshPort _ _, rfl⟩

theorem forall₂_refreshPort {chosen chosen' : String → Option String}
    (h : Forall₂ (Port.Fits chosen) sockets ports) :
    Forall₂ (Port.Fits chosen') sockets (ports.map (refreshPort chosen')) := by
  induction h with
  | nil => exact .nil
  | cons hfits _ ih => exact .cons hfits.refresh ih

/-- Ports with the written defaults. -/
theorem silent_of_defaults (h : (ports.map fun port => port.default) = sockets.map fun socket => socket.default) :
    Forall₂ Port.Silent sockets ports := by
  have hsame : Forall₂ (fun socket port => socket.default = port.default) sockets ports := by
    rw [← forall₂_map_right_iff (R := fun (socket : Socket) default => socket.default = default), h,
      forall₂_map_right_iff, forall₂_same]
    exact fun _ _ => rfl
  exact hsame.imp fun socket port heq hnone => heq ▸ hnone

theorem silent_refreshPort {chosen : String → Option String} (h : Forall₂ Port.Silent sockets ports) :
    Forall₂ Port.Silent sockets (ports.map (refreshPort chosen)) := by
  rw [forall₂_map_right_iff]
  refine h.imp fun socket port silent hnone => ?_
  rw [refreshPort_eq]
  exact silent hnone

theorem Instantiates.setProperty (h : node.Instantiates spec) (hset : node.setProperty name value = .ok node') :
    node'.Instantiates spec ∧ node.SamePorts node' := by
  have hsame := samePorts_setProperty hset
  obtain ⟨property, hfind, haccepts, rfl⟩ := setProperty_eq_ok.mp hset
  refine ⟨⟨h.kind, h.name, h.role, ?_, ?_, forall₂_refreshPort h.inputs, forall₂_refreshPort h.outputs,
    silent_refreshPort h.silent⟩, hsame⟩
  · exact Eq.trans (map_updateFirst (f := fun p : Property => { p with value }) (fun _ => rfl) _) h.decls
  · intro changed hmem
    rcases mem_updateFirst hmem with hold | ⟨old, hold, rfl⟩
    · exact h.accepted changed hold
    · rw [hfind, Option.some.injEq] at hold
      exact hold ▸ haccepts

/-- Outputs get a default only in the place of another one. -/
theorem Instantiates.updatePort (h : node.Instantiates spec) {value : Literal} (hport : node.port? id = some port)
    (hvalue : port.type.coerce? value = some value) (hplace : port ∈ node.inputs ∨ port.default.isSome = true) :
    (node.updatePort id fun port => { port with default := some value }).Instantiates spec := by
  unfold Node.updatePort
  have hfits : ∀ {sockets : List Socket} {ports : List Port},
      Forall₂ (Port.Fits node.chosen) sockets ports → ports.find? (fun p => p.id = id) = some port →
      Forall₂ (Port.Fits node.chosen) sockets
        (updateFirst (fun p => p.id = id) (fun p => { p with default := some value }) ports) := by
    intro sockets ports hports hfind
    refine forall₂_updateFirst hports fun socket found hfits hfound => ?_
    have heq : found = port := Option.some.inj (hfound.symm.trans hfind)
    refine hfits.withDefault ?_
    rw [← hfits.type, heq]
    exact hvalue
  by_cases hany : (node.inputs.any fun p => p.id = id) = true
  · rw [if_pos hany]
    have hfind : node.inputs.find? (fun p => p.id = id) = some port := by
      unfold port? at hport
      rw [any_eq_true, ← find?_isSome] at hany
      obtain ⟨found, hfound⟩ := Option.isSome_iff_exists.mp hany
      rwa [hfound, Option.some_or, ← hfound] at hport
    exact { h with inputs := hfits h.inputs hfind }
  · rw [if_neg hany]
    have hfind : node.outputs.find? (fun p => p.id = id) = some port := by
      unfold port? at hport
      rw [any_eq_true, ← find?_isSome] at hany
      rwa [Option.not_isSome_iff_eq_none.mp hany, Option.none_or] at hport
    have hid := find?_some hfind
    have hdefault := hplace.resolve_left fun hmem => hany (any_eq_true.mpr ⟨port, hmem, hid⟩)
    refine { h with outputs := hfits h.outputs hfind, silent := forall₂_updateFirst h.silent ?_ }
    intro socket found silent hfound hnone
    rw [Option.some.inj (hfound.symm.trans hfind)] at silent
    rw [silent hnone] at hdefault
    cases hdefault

theorem samePorts_updatePort (node : Node) (id : PortId) (value : Literal) :
    node.SamePorts (node.updatePort id fun port => { port with default := some value }) := by
  unfold updatePort
  split
  · exact ⟨rfl, map_updateFirst (f := fun p : Port => { p with default := some value }) (fun _ => rfl) _, rfl, rfl⟩
  · exact ⟨rfl, rfl, map_updateFirst (f := fun p : Port => { p with default := some value }) (fun _ => rfl) _, rfl⟩

/-! ## New nodes -/

/-- The port with an identity still holds the written default. -/
def Pristine (spec : KindSpec) (node : Node) (id : PortId) : Prop :=
  ∀ entry ∈ spec.inputs.zip node.inputs, entry.2.id = id → entry.2.default = entry.1.default

/-- A node of a shape with identities that were drawn for it. -/
structure Made (spec : KindSpec) (lo hi : Nat) (node : Node) : Prop where
  shape : node.Instantiates spec
  draws : Supply.Draws lo hi (node.id :: node.ports.map Port.id)
  pristine : ∀ id, node.Pristine spec id

theorem Made.mono {lo hi hi' : Nat} (made : node.Made spec lo hi) (le : hi ≤ hi') : node.Made spec lo hi' :=
  { made with
    draws := ⟨Nat.le_trans made.draws.le le, made.draws.nodup, fun id hid =>
      ⟨(made.draws.range id hid).1, Nat.lt_of_lt_of_le (made.draws.range id hid).2 le⟩⟩ }

/-- Ports at one place of two nodes with the same shape and identities. -/
theorem exists_partner {chosen chosen' : String → Option String} {ports' : List Port}
    (h : Forall₂ (Port.Fits chosen) sockets ports) (h' : Forall₂ (Port.Fits chosen') sockets ports')
    (ids : ports'.map Port.id = ports.map Port.id) (hmem : port' ∈ ports') :
    ∃ socket ∈ sockets, ∃ port ∈ ports, port.id = port'.id ∧
      port.Fits chosen socket ∧ port'.Fits chosen' socket := by
  induction h generalizing ports' with
  | nil =>
    cases h'
    cases hmem
  | @cons socket port sockets ports hfits _ ih =>
    cases h' with
    | @cons _ first _ rest hfits' hrest' =>
      rw [map_cons, map_cons, cons.injEq] at ids
      rcases mem_cons.mp hmem with rfl | hrest
      · exact ⟨socket, mem_cons_self, port, mem_cons_self, ids.1.symm, hfits, hfits'⟩
      · obtain ⟨socket', hsocket, port, hport, hall⟩ := ih hrest' ids.2 hrest
        exact ⟨socket', mem_cons_of_mem _ hsocket, port, mem_cons_of_mem _ hport, hall⟩

theorem eq_of_id_eq (nodup : (ports.map Port.id).Nodup) (hport : port ∈ ports) (hport' : port' ∈ ports)
    (h : port.id = port'.id) : port = port' :=
  inj_on_of_nodup_map nodup hport hport' h

/-- Of ports with different identities, changing the first with an identity changes just that
one. -/
theorem updateFirst_eq_map (nodup : (ports.map Port.id).Nodup) (id : PortId) (f : Port → Port) :
    updateFirst (fun port => port.id = id) f ports =
      ports.map fun port => if port.id = id then f port else port := by
  induction ports with
  | nil => rfl
  | cons port rest ih =>
    rw [map_cons, nodup_cons] at nodup
    rw [updateFirst, map_cons]
    by_cases h : port.id = id
    · simp only [h, decide_true, if_true, cons.injEq, true_and]
      refine ((map_congr_left fun other hother => ?_).trans (map_id rest)).symm
      have hne : other.id ≠ id := fun heq => nodup.1 (h ▸ heq ▸ mem_map_of_mem hother)
      simp [hne]
    · simp [h, ih nodup.2]

theorem port?_eq_some (h : node.port? id = some port) : port ∈ node.ports ∧ port.id = id := by
  unfold port? at h
  rw [Option.or_eq_some_iff] at h
  rcases h with h | ⟨_, h⟩
  · exact ⟨mem_append_left _ (mem_of_find?_eq_some h), by simpa using find?_some h⟩
  · exact ⟨mem_append_right _ (mem_of_find?_eq_some h), by simpa using find?_some h⟩

theorem port?_of_mem (nodup : (node.ports.map Port.id).Nodup) (h : port ∈ node.ports) :
    node.port? port.id = some port := by
  cases hfound : node.port? port.id with
  | none =>
    unfold port? at hfound
    rw [Option.or_eq_none_iff, find?_eq_none, find?_eq_none] at hfound
    rcases mem_append.mp h with hin | hout
    · exact absurd (by simp) (hfound.1 port hin)
    · exact absurd (by simp) (hfound.2 port hout)
  | some found =>
    obtain ⟨hmem, hid⟩ := port?_eq_some hfound
    rw [eq_of_id_eq nodup hmem h hid]

/-- A port that stays as it is holds the written default as before. -/
theorem Pristine.revise (pristine : node.Pristine spec id)
    (ids : node'.inputs.map Port.id = node.inputs.map Port.id) (nodup : (node.inputs.map Port.id).Nodup)
    (hport : port ∈ node.inputs) (hport' : port ∈ node'.inputs) (hid : port.id = id) :
    node'.Pristine spec id := by
  intro entry hmem hentry
  obtain ⟨i, hi, rfl⟩ := mem_iff_getElem.mp hmem
  have hlength : node'.inputs.length = node.inputs.length := by simpa using congrArg length ids
  rw [getElem_zip] at hentry ⊢
  rw [length_zip] at hi
  have hi' : i < node'.inputs.length := by omega
  have hi0 : i < node.inputs.length := by omega
  have hsame : node'.inputs[i].id = node.inputs[i].id := by
    have h := congrArg (fun l => l[i]?) ids
    simpa [hi', hi0] using h
  have hnew : node'.inputs[i] = port :=
    eq_of_id_eq (ids ▸ nodup) (getElem_mem hi') hport' (hentry.trans hid.symm)
  have hold : node.inputs[i] = port :=
    eq_of_id_eq nodup (getElem_mem hi0) hport (hsame.symm.trans (hentry.trans hid.symm))
  have hzip : (spec.inputs[i], node.inputs[i]) ∈ spec.inputs.zip node.inputs := by
    refine mem_iff_getElem.mpr ⟨i, by rw [length_zip]; omega, ?_⟩
    rw [getElem_zip]
  have hdefault := pristine _ hzip (hsame.symm.trans hentry)
  simp only [hnew, hold] at hdefault ⊢
  exact hdefault

theorem Pristine.setProperty (pristine : node.Pristine spec id) (hset : node.setProperty name value = .ok node') :
    node'.Pristine spec id := by
  obtain ⟨property, _, _, rfl⟩ := setProperty_eq_ok.mp hset
  intro entry hmem hid
  change entry ∈ spec.inputs.zip (node.inputs.map (refreshPort _)) at hmem
  rw [zip_map_right, mem_map] at hmem
  obtain ⟨old, hold, rfl⟩ := hmem
  simp only [Prod.map_snd, Prod.map_fst, refreshPort_eq, id_eq] at hid ⊢
  exact pristine old hold hid

theorem pristine_of_defaults
    (h : (node.inputs.map fun port => port.default) = spec.inputs.map fun socket => socket.default)
    (id : PortId) : node.Pristine spec id := by
  intro entry hmem _
  obtain ⟨i, hi, rfl⟩ := mem_iff_getElem.mp hmem
  rw [length_zip] at hi
  have hget := congrArg (fun defaults => defaults[i]?) h
  simp only [getElem?_map, getElem?_eq_getElem (show i < node.inputs.length by omega),
    getElem?_eq_getElem (show i < spec.inputs.length by omega), Option.map_some, Option.some.injEq] at hget
  rw [getElem_zip]
  exact hget

theorem forall₂_made {chosen : String → Option String} (h : ports.map Port.toSocket = sockets) :
    Forall₂ (Port.Fits chosen) sockets (ports.map (refreshPort chosen)) := by
  subst h
  induction ports with
  | nil => exact .nil
  | cons port rest ih => exact .cons (Port.Fits.ofSocket rfl) ih

/-- Ports that are always enabled need no refreshing. -/
theorem forall₂_plain {chosen : String → Option String} (h : ports.map Port.toSocket = sockets)
    (plain : ∀ socket ∈ sockets, socket.enabledWhen = none) : Forall₂ (Port.Fits chosen) sockets ports := by
  subst h
  induction ports with
  | nil => exact .nil
  | cons port rest ih =>
    have hwhen : port.enabledWhen = none := plain port.toSocket (by simp)
    refine .cons ?_ (ih fun socket hsocket => plain socket (mem_cons_of_mem _ hsocket))
    exact ⟨rfl, rfl, rfl, rfl, rfl, rfl, rfl, by rw [Socket.enabledUnder, hwhen], Or.inl rfl⟩

/-- The node that a kind makes. -/
def fresh (kind : NodeKind) (id : NodeId) (inputs outputs : List Port) : Node :=
  refresh
    { id, inputs, outputs
      kind := kind.id
      name := kind.name
      role := kind.role
      properties := kind.properties.map fun decl => ⟨decl, decl.default⟩ }

theorem made_fresh (minted : Kind.Minted spec kind)
    (accepted : ∀ decl ∈ spec.properties, decl.accepts decl.default = true) {lo hi : Nat} {id : NodeId}
    {inputs outputs : List Port} (hinputs : inputs.map Port.toSocket = spec.inputs)
    (houtputs : outputs.map Port.toSocket = spec.outputs)
    (draws : Supply.Draws lo hi (id :: (inputs.map Port.id ++ outputs.map Port.id))) :
    (fresh kind id inputs outputs).Made spec lo hi := by
  refine ⟨⟨minted.id, minted.name, minted.role, ?_, ?_, forall₂_made hinputs, forall₂_made houtputs,
    silent_of_defaults ?_⟩, ?_, pristine_of_defaults ?_⟩
  · simp [fresh, refresh, minted.properties, Function.comp_def]
  · intro property hmem
    obtain ⟨decl, hdecl, rfl⟩ := mem_map.mp hmem
    exact accepted decl (minted.properties ▸ hdecl)
  · simp [fresh, refresh, refreshPort_eq, ← houtputs, Function.comp_def]
  · simpa only [ports, fresh, refresh, map_append, map_id_refreshPort] using draws
  · simp [fresh, refresh, refreshPort_eq, ← hinputs, Function.comp_def]

/-- A kind makes a node with identities that have just been drawn. -/
theorem exists_ofKind (kind : NodeKind) (s : Supply) : ∃ id inputs outputs,
    inputs.map Port.toSocket = kind.inputs.map Port.toSocket ∧
    outputs.map Port.toSocket = kind.outputs.map Port.toSocket ∧
    Supply.Draws s.next (ofKind kind s).2.next (id :: (inputs.map Port.id ++ outputs.map Port.id)) ∧
    (ofKind kind s).1 = fresh kind id inputs outputs := by
  have hmint : ∀ (ports : List Port) (s : Supply),
      (ports.mapM fun p => p.toSocket.mint : StateM Supply (List Port)) s =
      ((ports.map Port.toSocket).mapM Socket.mint : StateM Supply (List Port)) s := by
    intro ports s
    rw [mapM_map]
    rfl
  have hports : ∀ (ports : List Port) (s : Supply),
      ((ports.mapM fun p => p.toSocket.mint : StateM Supply (List Port)) s).1.map Port.toSocket =
        ports.map Port.toSocket := by
    intro ports s
    rw [hmint, Socket.mapM_mint_toSocket]
  have hdraws := (Supply.draws_fresh s).append ((Supply.draws_mapM_mint (kind.inputs.map Port.toSocket) _).append
    (Supply.draws_mapM_mint (kind.outputs.map Port.toSocket) _))
  simp only [← hmint] at hdraws
  exact ⟨_, _, _, hports _ _, hports _ _, hdraws, rfl⟩

theorem made_ofKind (minted : Kind.Minted spec kind)
    (accepted : ∀ decl ∈ spec.properties, decl.accepts decl.default = true) (s : Supply) :
    (ofKind kind s).1.Made spec s.next (ofKind kind s).2.next := by
  obtain ⟨id, inputs, outputs, hinputs, houtputs, hdraws, heq⟩ := exists_ofKind kind s
  rw [heq]
  exact made_fresh minted accepted (hinputs.trans minted.inputs) (houtputs.trans minted.outputs) hdraws

end Node

end NodeScript
