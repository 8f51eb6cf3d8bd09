import NodeScript.Proofs.Build.Confinement
import NodeScript.Proofs.Build.Expansion

/-!
# Inputs over histories of builds

Every build of a graph gives it the inputs of its signature, also where its body fails. An input
keeps the identity of the input that was at its position before, if that was of the same type, and
gets a new one otherwise; so identities outlast any number of builds that leave the type at their
position alone.
-/

namespace NodeScript

open Build List

variable {session : Session} {name : String} {old? : Option Entry} {s : Supply} {new : Entry}

/-! ## Declarations of a signature -/

namespace Signature

variable {classes : SocketClasses} {params : List ResolvedParam} {names : List String}

/-- The parameters of a signature in order, fields in the place of their groups, with their names on
the interface. -/
def flatten (signature : Signature) : List (Param × String) := signature.slots.map Prod.snd

/-- The declarations are those of the parameters, one for each. -/
def Declares (classes : SocketClasses) : List (Param × String) → List Declaration → Prop :=
  Forall₂ fun (param, name) declaration => param.resolve name classes = .ok declaration

theorem declares_entries {signature : Signature} (h : resolveEntries classes signature names = .ok params) :
    Declares classes signature.flatten (params.map ResolvedParam.declaration) := by
  rw [flatten, Declares, forall₂_map_left_iff, forall₂_map_right_iff]
  exact (fills_entries h).1.imp fun _ _ fills => fills.2.2

end Signature

/-! ## Reconciling inputs with declarations -/

/-- An entry has the identity of the one in whose place it comes if that is of its type, and
otherwise one that has not been in use. -/
def Entry.Inherits (old? : Option Entry) (s : Supply) (new : Entry) : Prop :=
  match old? with
  | some old => if old.type = new.type then new.id = old.id else ¬ s.Used new.id
  | none => ¬ s.Used new.id

/-- The new inputs declare what they should and take their identities from the old ones at their
positions. Distinct identities stay distinct. -/
structure Reconciled (olds : List Entry) (s : Supply)
    (declarations : List Declaration) (news : List Entry) : Prop where
  data : news.map Entry.toDeclaration = declarations
  identity : ∀ (position : Nat) (new : Entry), news[position]? = some new → new.Inherits olds[position]? s
  distinct : (∀ old ∈ olds, s.Used old.id) → (olds.map Entry.id).Nodup → (news.map Entry.id).Nodup

theorem Entry.Inherits.of_used {s' : Supply} (h : new.Inherits old? s') (used : ∀ {id}, s.Used id → s'.Used id) :
    new.Inherits old? s := by
  unfold Inherits at h ⊢
  split
  next old =>
    dsimp only at h
    split
    next htype => rwa [if_pos htype] at h
    next htype =>
      rw [if_neg htype] at h
      exact fun hused => h (used hused)
  next => exact fun hused => h (used hused)

/-- An identity that has been in use is that of the old entry. -/
theorem Entry.Inherits.exists_old (h : new.Inherits old? s) (used : s.Used new.id) :
    ∃ old, old? = some old ∧ new.id = old.id := by
  unfold Inherits at h
  split at h
  next old =>
    split at h
    · exact ⟨old, rfl, h⟩
    · exact absurd used h
  next => exact absurd used h

namespace Reconciled

variable {news : List Entry} {s s' : Supply} {declarations : List Declaration}

/-- One more input in front. -/
theorem cons (olds : List Entry) (new : Entry) (h : Reconciled olds.tail s' declarations news)
    (used : ∀ {id}, s.Used id → s'.Used id) (inherits : new.Inherits olds.head? s)
    (spoken : (∀ old ∈ olds, s.Used old.id) → s'.Used new.id) :
    Reconciled olds s (new.toDeclaration :: declarations) (new :: news) where
  data := by rw [map_cons, h.data]
  identity := by
    intro position later hlater
    cases position with
    | zero =>
      cases hlater
      rwa [← head?_eq_getElem?]
    | succ position =>
      have hposition := (h.identity position later hlater).of_used used
      rwa [getElem?_tail] at hposition
  distinct := by
    intro holds hnodup
    have htail : ∀ old ∈ olds.tail, s.Used old.id := fun old hold => holds old (mem_of_mem_tail hold)
    have hnews := h.distinct (fun old hold => used (htail old hold)) (hnodup.sublist ((tail_sublist olds).map _))
    refine nodup_cons.mpr ⟨fun hmem => ?_, hnews⟩
    obtain ⟨later, hlater, hid⟩ := mem_map.mp hmem
    obtain ⟨position, hposition⟩ := mem_iff_getElem?.mp hlater
    -- Both identities were in use before, so they are those of two old entries.
    obtain ⟨old, hold, heq⟩ := (h.identity position later hposition).exists_old (hid ▸ spoken holds)
    have hmem := mem_of_getElem? hold
    obtain ⟨first, hfirst, heq'⟩ := inherits.exists_old (hid ▸ heq ▸ htail old hmem)
    obtain ⟨rest, rfl⟩ := head?_eq_some_iff.mp hfirst
    refine (nodup_cons.mp hnodup).1 ?_
    rw [← heq', ← hid, heq]
    exact mem_map_of_mem hmem

end Reconciled

theorem reconciled_reconcile (olds : List Entry) (declarations : List Declaration) (s : Supply) :
    Reconciled olds s declarations (reconcile olds declarations s).1 := by
  have hused : ∀ {s : Supply} {id : Identity}, s.Used id → (Supply.fresh s).2.Used id :=
    fun h => Supply.used_fresh _ _ (.inr h)
  have hspoken : ∀ s : Supply, (Supply.fresh s).2.Used (Supply.fresh s).1 :=
    fun s => Supply.used_fresh _ _ (.inl rfl)
  induction declarations generalizing olds s with
  | nil =>
    rw [reconcile]
    refine ⟨rfl, fun position new h => ?_, fun _ _ => .nil⟩
    cases h
  | cons declaration rest ih =>
    cases olds with
    | nil =>
      exact .cons [] { declaration with id := (Supply.fresh s).1 } (ih [] (Supply.fresh s).2) hused
        (Supply.fresh_not_used s) fun _ => hspoken s
    | cons old olds =>
      rw [reconcile]
      split
      next htype =>
        refine .cons (old :: olds) { declaration with id := old.id } (ih olds s) (fun h => h) ?_ fun h => ?_
        · change if old.type = declaration.type then old.id = old.id else _
          rw [if_pos htype]
        · exact h old mem_cons_self
      next htype =>
        refine .cons (old :: olds) { declaration with id := (Supply.fresh s).1 } (ih olds (Supply.fresh s).2) hused
          ?_ fun _ => hspoken s
        change if old.type = declaration.type then _ else ¬ s.Used (Supply.fresh s).1
        rw [if_neg htype]
        exact Supply.fresh_not_used s

/-! ## Steps that leave the inputs alone -/

namespace Graph

variable {graph graph' : Graph}

theorem interface_addNode (graph : Graph) (node : Node) (s : Supply) :
    (graph.addNode node s).1.interface = graph.interface := by
  unfold Graph.addNode
  split <;> rfl

theorem interface_withoutItems (graph : Graph) (id : NodeId) :
    (graph.withoutItems id).1.interface = graph.interface := by
  unfold Graph.withoutItems
  split <;> rfl

theorem interface_clearZoneItems {entry : NodeId} (h : graph.clearZoneItems entry = .ok graph') :
    graph'.interface = graph.interface := by
  obtain ⟨exit, ports, _, _, rfl⟩ := clearZoneItems_eq_ok h
  rw [interface_withoutItems, interface_withoutItems]
  rfl

theorem interface_addZoneItem (graph : Graph) (entry : NodeId) (name : String) (type : SocketType) (s : Supply) :
    (graph.addZoneItem entry name type s).1.1.interface = graph.interface := by
  refine addZoneItem_induction (R := fun _ g => g.interface = graph.interface)
    rfl (fun _ h => h) fun _ _ h hitem => ?_
  obtain ⟨_, _, _, _, _, _, _, rfl⟩ := addItemTo_eq_some hitem
  exact h

end Graph

/-- Inside the graph of a name, its inputs stay as they are. Graphs of the other names may be
built. -/
def steady (name : String) (names : List String) : Limits where
  edit g _ g' _ := g'.interface.inputs = g.interface.inputs
  free other := other ∈ names
  error _ := True
  kind _ := True
  property _ _ := True
  literal _ := True
  context b := b.scopes.head? = some name

theorem open_steady (name : String) (names : List String) (session : Session) :
    (steady name names).Open session where
  skip _ := rfl
  trans first second := second.trans first
  plain _ := trivial
  add _ _ g _ := congrArg Interface.inputs (g.interface_addNode _ _)
  assign _ _ _ _ := rfl
  fill _ _ _ _ := rfl
  link _ _ := rfl
  pair h _ := by
    obtain ⟨_, _, _, _, _, _, rfl⟩ := Graph.pairZone_eq_ok h
    rfl
  clear h _ := congrArg Interface.inputs (Graph.interface_clearZoneItems h)
  item g entry name type s := congrArg Interface.inputs (g.interface_addZoneItem entry name type s)
  output _ _ _ := rfl
  move _ _ _ _ := rfl
  coerce _ _ _ := trivial
  carrier _ _ := trivial
  carried _ _ _ := trivial
  ends _ := ⟨trivial, trivial⟩
  context hb within := (congrArg head? within.scopes).trans hb
  kinds _ := trivial
  properties _ _ := trivial
  literals _ := trivial
  ports _ _ _ := rfl

/-- A body that does not build the graph it is run in leaves the inputs of that graph alone. -/
theorem Build.Composed.keeps_steady {names : List String} (apart : name ∉ names) {α : Type} {m : BuildM α}
    (h : Composed session names m) : (steady name names).Keeps m := by
  refine h.keeps_of (open_steady name names session) not_false (fun _ => trivial) ?_
  intro body other named signature composed _ b hb
  obtain ⟨confined, version⟩ := @confined_version_of_keeps session names body
    (fun inputs => (composed inputs).keeps) other signature b
  have hnames : ∀ graph, graph ∉ names →
      (exec (Build.build session other signature body) b).2.store.get? graph = b.store.get? graph := by
    intro graph hgraph
    refine confined.others graph fun hmem => ?_
    rcases mem_cons.mp hmem with rfl | hmem
    · exact hgraph named
    · exact hgraph hmem
  refine ⟨⟨confined.scopes, version, confined.order, fun graph _ hgraph => hnames graph hgraph, fun g hg => ?_⟩,
    fun _ _ => trivial, not_false.elim⟩
  refine ⟨g, ?_, rfl⟩
  rw [current?, hb] at hg
  rw [current?, confined.scopes, hb]
  exact (hnames name apart).trans hg

/-! ## Histories -/

/-- A build of the graph of a name: a valid signature, and a body that is put together from
operations and does not build the graph itself. -/
structure Rebuild (session : Session) (name : String) where
  signature : Signature
  params : List ResolvedParam
  valid : signature.validate session.classes = .ok params
  body : Inputs → BuildM Returns
  /-- Names of the graphs that the body builds, at all depths. -/
  nested : List String
  composed : ∀ inputs, Composed session nested (body inputs)
  apart : name ∉ nested

namespace Rebuild

/-- The build that is left behind, whether the body succeeds or fails. -/
def run (b : Build) (rebuild : Rebuild session name) : Build :=
  (exec (Build.build session name rebuild.signature rebuild.body) b).2

def runAll (history : List (Rebuild session name)) (b : Build) : Build := history.foldl run b

/-- The declarations of the signature, with groups flattened. -/
def declarations (rebuild : Rebuild session name) : List Declaration := rebuild.params.map ResolvedParam.declaration

end Rebuild

/-- The inputs of the graph of a name; a graph that does not exist has none. -/
def Build.inputsOf (b : Build) (name : String) : List Entry := (b.store.getD name).interface.inputs

/-- One build gives the graph the inputs of the signature. -/
theorem Rebuild.reconciled_run (rebuild : Rebuild session name) (b : Build) :
    (rebuild.run b).store.contains name = true ∧
      Reconciled (b.inputsOf name) b.supply rebuild.declarations ((rebuild.run b).inputsOf name) := by
  have wide := open_steady name rebuild.nested session
  have hbody : (steady name rebuild.nested).Keeps (runBody session rebuild.params rebuild.body) :=
    wide.keeps_runBody trivial trivial rebuild.params
      (fun inputs => (rebuild.composed inputs).keeps_steady rebuild.apart)
      fun _ _ _ returns _ => wide.collects returns
  obtain ⟨inputs, s, hinputs, changed, _⟩ :=
    wide.changed_build rebuild.valid hbody (b := b) fun start hscopes _ _ => by
    change start.scopes.head? = some name
    rw [hscopes]
    rfl
  obtain ⟨graph, hgraph, hkept⟩ := changed.graph
  have hafter : (rebuild.run b).inputsOf name = inputs := by
    unfold Build.inputsOf Store.getD
    rw [show (rebuild.run b).store.get? name = some graph from hgraph]
    exact hkept
  have hreconciled := reconciled_reconcile (b.inputsOf name) rebuild.declarations b.supply
  rw [show reconcile (b.inputsOf name) rebuild.declarations b.supply = (inputs, s) from hinputs,
    ← hafter] at hreconciled
  exact ⟨decide_eq_true (OrderedMap.mem_keys_iff.mpr ⟨graph, hgraph⟩), hreconciled⟩

/-- A build that declares the same type at a position leaves the identity there. -/
theorem Reconciled.stays {olds news : List Entry} {declarations : List Declaration}
    (h : Reconciled olds s declarations news) {position : Nat} {old : Entry} {declaration : Declaration}
    (hold : olds[position]? = some old) (hdeclaration : declarations[position]? = some declaration)
    (htype : declaration.type = old.type) :
    ∃ new, news[position]? = some new ∧ new.id = old.id ∧ new.type = old.type := by
  rw [← h.data, getElem?_map, Option.map_eq_some_iff] at hdeclaration
  obtain ⟨new, hnew, rfl⟩ := hdeclaration
  have hinherits := h.identity position new hnew
  rw [hold, Entry.Inherits, if_pos htype.symm] at hinherits
  exact ⟨new, hnew, hinherits, htype⟩

/-- Over every history of builds of a graph, each build leaves the graph with the inputs of its
signature, whether its body succeeds or fails, and gives each the identity of the input of the same
type that was at its position, or else a new one. So an identity stays as long as all builds declare
its type at its position. -/
theorem Build.identity_follows_position (history : List (Rebuild session name)) (b : Build) :
    (∀ next : Rebuild session name,
      ((next.run (Rebuild.runAll history b)).store.contains name = true ∧
        Signature.Declares session.classes next.signature.flatten next.declarations) ∧
      Reconciled ((Rebuild.runAll history b).inputsOf name) (Rebuild.runAll history b).supply next.declarations
        ((next.run (Rebuild.runAll history b)).inputsOf name)) ∧
    ∀ (position : Nat) (entry : Entry), (b.inputsOf name)[position]? = some entry →
      (∀ rebuild ∈ history, ∃ declaration, rebuild.declarations[position]? = some declaration ∧
        declaration.type = entry.type) →
      ∃ after, ((Rebuild.runAll history b).inputsOf name)[position]? = some after ∧ after.id = entry.id ∧
        after.type = entry.type := by
  refine ⟨fun next => ?_, fun position entry hentry hhistory => ?_⟩
  · obtain ⟨hcontains, hreconciled⟩ := next.reconciled_run (Rebuild.runAll history b)
    exact ⟨⟨hcontains, Signature.declares_entries next.valid⟩, hreconciled⟩
  · induction history generalizing b entry with
    | nil => exact ⟨entry, hentry, rfl, rfl⟩
    | cons rebuild rest ih =>
      obtain ⟨declaration, hdeclaration, htype⟩ := hhistory rebuild mem_cons_self
      obtain ⟨next, hnext, hid, htype'⟩ := (rebuild.reconciled_run b).2.stays hentry hdeclaration htype
      obtain ⟨after, hafter, hid', htype''⟩ := ih (rebuild.run b) next hnext fun later hlater =>
        htype' ▸ hhistory later (mem_cons_of_mem _ hlater)
      exact ⟨after, hafter, hid'.trans hid, htype''.trans htype'⟩

/-- A build of two inputs, one of them in a group, whose body builds another graph and then
fails. -/
def lapsed : Rebuild (Session.standard {}) "Outer" where
  signature := [.param { name := "size", typeName := "Float" },
    .group { name := "grid", stem := some "grid", fields := [{ name := "count", typeName := "Int" }] }]
  params := [⟨none, "size", { name := "Size", type := .float }⟩,
    ⟨some "grid", "count", { name := "Grid Count", type := .int }⟩]
  valid := by decide +kernel
  body given := do
    let registers ← Step.runAll (Session.standard {}) given (Registers.withInputs [] given) detour
    Build.ofExcept (registers.returns (.tuple []))
  nested := ["Inner"]
  composed inputs := .bind (Step.composed_runAll detour inputs _ (by decide)) fun _ => .ofExcept _
  apart := by decide

/-- A build of one input, under another name, of which nothing is made. -/
def renewed : Rebuild (Session.standard {}) "Outer" where
  signature := [.param { name := "scale", typeName := "FloatFactor", subtype := some "FACTOR" }]
  params := [⟨none, "scale", { name := "Scale", type := .float, subtype := some "FACTOR" }⟩]
  valid := by decide +kernel
  body _ := pure (.tuple [])
  nested := []
  composed _ := .pure _
  apart := by decide

theorem Build.identity_follows_position_lapsed :
    let entry : Entry := { name := "Length", type := .float, id := ⟨7⟩ }
    let b : Build := {
      store := Store.empty.set "Outer" { name := "Outer", interface := { inputs := [entry] } }, supply := {} }
    (b.inputsOf "Outer")[0]? = some entry ∧
      (∀ rebuild ∈ [renewed, lapsed, renewed, lapsed], ∃ declaration, rebuild.declarations[0]? = some declaration ∧
        declaration.type = entry.type) ∧
      ∃ after, ((Rebuild.runAll [renewed, lapsed, renewed, lapsed] b).inputsOf "Outer")[0]? = some after ∧
        after.id = ⟨7⟩ ∧ after.type = .float := by
  intro entry b
  have hentry : (b.inputsOf "Outer")[0]? = some entry := rfl
  have hhistory : ∀ rebuild ∈ [renewed, lapsed, renewed, lapsed],
      ∃ declaration, rebuild.declarations[0]? = some declaration ∧ declaration.type = entry.type := by
    simp only [forall_mem_cons, not_mem_nil, false_implies, implies_true, and_true]
    exact ⟨⟨_, rfl, rfl⟩, ⟨_, rfl, rfl⟩, ⟨_, rfl, rfl⟩, ⟨_, rfl, rfl⟩⟩
  exact ⟨hentry, hhistory, (Build.identity_follows_position _ b).2 0 entry hentry hhistory⟩

end NodeScript
