import NodeScript.Proofs.Build.Boundaries

/-!
# Zones of a built graph

Every zone statement that gets past the creation of its zone leaves an entry and an exit of its own,
which are paired and have the items in the order of their declaration, whether the build succeeds or
not. If it succeeds, the step of each zone has got the outputs of its entry, and the inputs of its
exit have the next values in order.
-/

namespace NodeScript

open Draft List Script Statement

variable {zone : Opening} {graph : Graph} {draft : Draft} {entry exit : Node} {session : Session} {site : Site}
  {rules : Rules} {classes : SocketClasses} {name : String} {items : List Parameter} {port : Port} {place : Nat}

/-! ## Ends of zones -/

/-- The nodes are the two ends of the zone. No other node is paired with the exit, and inputs and
outputs of both show the items with their names and types in order. -/
structure Graph.Pairs (classes : SocketClasses) (graph : Graph) (zone : Opening) (entry exit : Node) : Prop where
  entryFound : graph.node? zone.entry = some entry
  exitFound : graph.node? zone.exit = some exit
  entryKind : entry.kind = zone.kind.entryKind
  exitKind : exit.kind = zone.kind.exitKind
  paired : ∀ id node, graph.node? id = some node → (node.pairedOutput = some zone.exit ↔ id = zone.entry)
  items : ∀ ports ∈ [entry.inputs, entry.outputs, exit.inputs, exit.outputs], Forall₂ (fun item port =>
    port.name = titleCase item.name ∧ classes.resolve? item.typeName = some port.type) zone.items
    (ports.filter fun port => port.zoneItem)

/-- From where the zone was created its step has got the outputs of the entry by the names of the
items, of several items with one name the last, and has given next values, which the inputs of the
exit have got in order. -/
def Graph.Iterates (session : Session) (name : String) (graph : Graph) (zone : Opening) (entry exit : Node) : Prop :=
  ∃ inputs next c, Build.exec (zone.step session) zone.created = (.ok (inputs, next), c) ∧
    (∀ (place : Nat) item port, zone.items[place]? = some item →
      (entry.outputs.filter fun port => port.zoneItem)[place]? = some port →
      (∀ later ∈ zone.items.drop (place + 1), later.name ≠ item.name) →
      inputs.get? item.name = some (.value (port.value name zone.entry))) ∧
    next.length ≤ zone.items.length ∧ graph.Continues exit next

namespace Graph

theorem Gets.move {id : NodeId} {value : Option Operand} (h : graph.Gets id port value) (moved : NodeId)
    (position : Single × Single) : (graph.move moved position).Gets id port value := by
  cases h with
  | linked link denotes misfit only => exact .linked link (denotes_move denotes moved position) misfit only
  | held holds default free => exact .held holds default free
  | nothing default free => exact .nothing default free

theorem Pairs.move (h : graph.Pairs classes zone entry exit) (id : NodeId) (position : Single × Single) :
    ∃ place place', (graph.move id position).Pairs classes zone { entry with position := place }
      { exit with position := place' } := by
  obtain ⟨place, hentry⟩ := exists_node?_move h.entryFound id position
  obtain ⟨place', hexit⟩ := exists_node?_move h.exitFound id position
  refine ⟨place, place', hentry, hexit, h.entryKind, h.exitKind, fun key node hnode => ?_, h.items⟩
  rw [node?_move] at hnode
  obtain ⟨old, hold, rfl⟩ := Option.map_eq_some_iff.mp hnode
  exact h.paired key old hold

theorem Iterates.move (h : graph.Iterates session name zone entry exit) (id : NodeId)
    (position place place' : Single × Single) : (graph.move id position).Iterates session name zone
      { entry with position := place } { exit with position := place' } := by
  obtain ⟨inputs, next, c, hexec, state, short, continues⟩ := h
  exact ⟨inputs, next, c, hexec, state, short, fun at' port hport => (continues at' port hport).move id position⟩

end Graph

/-- Both ends show the items. -/
theorem Site.forall₂_items {chosen : String → Option String}
    {resolved : List (String × SocketType)}
    (hresolved : Build.resolveItems classes (items.map Parameter.item) = .ok resolved)
    {socket : String × SocketType → Socket}
    {sockets : List Socket} (plain : ∀ socket ∈ sockets, socket.zoneItem = false) {ports : List Port}
    (h : Forall₂ (Port.Fits chosen) (sockets ++ resolved.map socket) ports)
    (hsocket : ∀ item, (socket item).name = item.1 ∧
      (socket item).type = item.2 ∧ (socket item).zoneItem = true) :
    Forall₂ (fun item port => port.name = titleCase item.name ∧
      classes.resolve? item.typeName = some port.type) items
      (ports.filter fun port => port.zoneItem) := by
  obtain ⟨_, own, _, _, hown, hfilter, _⟩ := exists_itemPorts h plain fun item => (hsocket item).2.2
  rw [hfilter]
  exact forall₂_map_left_iff.mp
    (forall₂_itemPorts (fun item => ⟨(hsocket item).1, (hsocket item).2.1⟩) (resolveItems_eq_ok hresolved) hown)

/-- The entry of a zone is the innermost zone around the inputs of its exit, so that the exit
belongs to one entry. -/
theorem Opening.Stands.pairs (h : zone.Stands classes draft) (sound : draft.Sound rules) (coupled : draft.Coupled) :
    ∃ entry exit, draft.graph.Pairs classes zone entry exit := by
  obtain ⟨resolved, entry, exit, hresolved, hentry, entryInner, hpaired, hexit, exitInner, entryInfo, exitInfo⟩ := h
  have entryShape := entryInfo ▸ (sound.shaped hentry entryInner).2
  have exitShape := exitInfo ▸ (sound.shaped hexit exitInner).2
  refine ⟨entry, exit, hentry, hexit, entryShape.kind.trans ?_, exitShape.kind.trans ?_, fun id node hnode =>
    ⟨fun h => ?_, ?_⟩, ?_⟩
  · cases zone.kind <;> rfl
  · cases zone.kind <;> rfl
  · have hreads := (coupled id node zone.exit hnode h).reads
    rw [(coupled zone.entry entry zone.exit hentry hpaired).reads] at hreads
    exact (cons.inj hreads).1.symm
  · rintro rfl
    rw [hentry, Option.some.injEq] at hnode
    exact hnode ▸ hpaired
  · have hplain : ∀ socket ∈ zone.kind.exitSpec.outputs, socket.zoneItem = false := by
      rw [zone.kind.exit_plain.2]
      exact fun _ h => absurd h not_mem_nil
    simp only [mem_cons, not_mem_nil, or_false, forall_eq_or_imp, forall_eq]
    exact ⟨Site.forall₂_items hresolved zone.kind.entry_plain.1 entryShape.inputs fun _ => ⟨rfl, rfl, rfl⟩,
      Site.forall₂_items hresolved zone.kind.entry_plain.2 entryShape.outputs fun _ => ⟨rfl, rfl, rfl⟩,
      Site.forall₂_items hresolved zone.kind.exit_plain.1 exitShape.inputs fun _ => ⟨rfl, rfl, rfl⟩,
      Site.forall₂_items hresolved hplain exitShape.outputs fun _ => ⟨rfl, rfl, rfl⟩⟩

/-! ## Steps of zones -/

/-- Of several pairs with one name the last is found. -/
theorem find?_reverse_getElem? {pairs : List (String × Port)} {pair : String × Port}
    (h : pairs[place]? = some pair) (last : ∀ later ∈ pairs.drop (place + 1), later.1 ≠ pair.1) :
    (pairs.reverse.find? fun found => found.1 = pair.1) = some pair := by
  obtain ⟨hlt, hget⟩ := List.getElem?_eq_some_iff.mp h
  have hparts : pairs = pairs.take place ++ pair :: pairs.drop (place + 1) := by
    rw [← hget, getElem_cons_drop, take_append_drop]
  refine find?_eq_some_iff_append.mpr ⟨decide_eq_true rfl, (pairs.drop (place + 1)).reverse,
    (pairs.take place).reverse, ?_, fun later hlater => ?_⟩
  · conv_lhs => rw [hparts]
    rw [reverse_append, reverse_cons, append_assoc]
    rfl
  · simpa using last later (mem_reverse.mp hlater)

theorem Site.StateOf.get? {inputs : Inputs}
    (state : StateOf name (items.map Parameter.item) entry inputs) {item : Parameter}
    (hitem : items[place]? = some item)
    (hport : (entry.outputs.filter fun port => port.zoneItem)[place]? = some port)
    (last : ∀ later ∈ items.drop (place + 1), later.name ≠ item.name) :
    inputs.get? item.name = some (.value (port.value name entry.id)) := by
  obtain ⟨base, own, _, hfilter, rfl⟩ := state
  rw [hfilter] at hport
  have hpairs : itemPairs Param.name (items.map Parameter.item) own =
      (items.zip own).map fun pair => (pair.1.name, pair.2) := by
    rw [itemPairs, zip_map_left, map_map]
    rfl
  have hpair : (itemPairs Param.name (items.map Parameter.item) own)[place]? = some (item.name, port) := by
    rw [hpairs, getElem?_map, (getElem?_zip_eq_some (z := (item, port))).mpr ⟨hitem, hport⟩]
    rfl
  have hfind := find?_reverse_getElem? hpair fun later hlater => by
    rw [hpairs, ← map_drop] at hlater
    obtain ⟨found, hfound, rfl⟩ := mem_map.mp hlater
    rw [zip_eq_zipWith, drop_zipWith, ← zip_eq_zipWith] at hfound
    exact last found.1 (of_mem_zip hfound).1
  rw [get?_bindNames, entryPairs, reverse_append, find?_append, hfind]
  rfl

theorem Opening.Ran.iterates (h : zone.Ran site draft) (sound : draft.Sound rules)
    (pairs : draft.graph.Pairs classes zone entry exit) :
    draft.graph.Iterates site.session site.name zone entry exit := by
  obtain ⟨⟨inputs, next⟩, c, hexec, finished⟩ := h
  obtain ⟨found, hfound, state⟩ := finished.state
  obtain ⟨found', hfound', continues⟩ := finished.continues
  rw [pairs.entryFound, Option.some.injEq] at hfound
  rw [pairs.exitFound, Option.some.injEq] at hfound'
  subst hfound hfound'
  refine ⟨inputs, next, c, hexec, fun place item port hitem hport last => ?_, finished.short, continues⟩
  rw [← sound.keyed pairs.entryFound]
  exact state.get? hitem hport last

/-! ## Zones of a program -/

namespace Script

def Statement.isZone : Statement → Bool
  | .call .. => false
  | .zone .. => true

/-- The zones belong to the first of some statements, and to all of them if the run succeeds. -/
def Covers {α : Type} (m : BuildM α) (b : Build) (zones : List Opening) (statements : List Statement) : Prop :=
  zones.map Opening.statement <+: statements ∧
    ∀ a c, Build.exec m b = (.ok a, c) → zones.map Opening.statement = statements

namespace Covers

variable {α β : Type} {m : BuildM α} {f : α → BuildM β} {b : Build} {zones : List Opening}
  {statements statements' : List Statement}

theorem nil (m : BuildM α) (b : Build) : Covers m b [] [] := And.intro nil_prefix fun _ _ _ => rfl

theorem append (first : Covers m b zones statements) {log : α → Build → List Opening}
    (second : ∀ a c, Covers (f a) c (log a c) statements') :
    Covers (m >>= f) b (zones ++ Build.after m b log) (statements ++ statements') := by
  unfold Covers
  cases hm : Build.exec m b with
  | mk result c =>
    cases result with
    | error e =>
      rw [Build.after_error hm, append_nil, Build.exec_bind_error hm]
      exact ⟨first.1.trans (prefix_append _ _), fun a c h => by cases h⟩
    | ok a =>
      rw [Build.after_ok hm, Build.exec_bind_ok hm, map_append, first.2 a c hm]
      exact ⟨(prefix_append_right_inj _).mpr (second a c).1, fun r c' h => by rw [(second a c).2 r c' h]⟩

theorem after {log : α → Build → List Opening} (h : ∀ a c, Covers (f a) c (log a c) statements) :
    Covers (m >>= f) b (Build.after m b log) statements :=
  (nil m b).append h

theorem bind (h : Covers m b zones statements) (f : α → BuildM β) : Covers (m >>= f) b zones statements := by
  refine ⟨h.1, fun r c hexec => ?_⟩
  obtain ⟨a, c', hm, _⟩ := Build.exec_bind_eq_ok.mp hexec
  exact h.2 a c' hm

theorem cons (h : Covers m b zones statements) (zone : Opening) :
    Covers m b (zone :: zones) (zone.statement :: statements) :=
  ⟨cons_prefix_cons.mpr ⟨rfl, h.1⟩, fun a c hexec => congrArg (zone.statement :: ·) (h.2 a c hexec)⟩

theorem inScope (h : Covers m { b with scopes := name :: b.scopes } zones statements) :
    Covers (Build.inScope name m) b zones statements := by
  refine ⟨h.1, fun a c hexec => ?_⟩
  rw [Build.exec_inScope] at hexec
  exact h.2 a _ (Prod.ext (Prod.mk.inj hexec).1 rfl)

end Covers

mutual

theorem Statement.covers_build (session : Session) (environment : Environment) (statement : Statement) (b : Build) :
    Covers (statement.build session environment) b (statement.openings session environment b)
      (statement.parts.filter Statement.isZone) :=
  match statement with
  | .call target function args => by
    rw [Statement.openings, Statement.parts]
    exact .nil _ b
  | .zone target kind items args body values => by
    rw [Statement.openings, build_zone _ _ _ _ _ _ b, Statement.parts]
    refine Covers.after fun (iterations, initial) _ => Covers.after fun (entry, exit) created => ?_
    refine Covers.cons (Covers.bind ?_ _) _
    exact Covers.after fun inputs c => (Statement.covers_buildAll session _ body c).bind _

theorem Statement.covers_buildAll (session : Session) (environment : Environment) (statements : List Statement)
    (b : Build) : Covers (buildAll session environment statements) b
      (openingsIn session environment statements b)
      ((partsIn statements).filter Statement.isZone) :=
  match statements with
  | [] => by
    rw [openingsIn, partsIn]
    exact .nil _ b
  | statement :: rest => by
    rw [openingsIn, buildAll, partsIn, filter_append]
    exact (Statement.covers_build session environment statement b).append fun result c =>
      Statement.covers_buildAll session _ rest c

end

namespace Program

open Build

variable {program : Program} {params : List ResolvedParam}

theorem covers_runBody (session : Session) (program : Program) (params : List ResolvedParam) (b : Build) :
    Covers (runBody session params (program.body session)) b (bodyOpenings session program params b)
      (program.parts.filter Statement.isZone) := by
  unfold bodyOpenings enterBody runBody Program.body
  rw [after_bind]
  refine Covers.after fun source c => ?_
  rw [after_bind]
  refine Covers.after fun sink c => ?_
  rw [after_bind]
  refine Covers.after fun inputs c => ?_
  refine Covers.bind (Covers.after fun bound c => ?_) _
  exact (Statement.covers_buildAll session bound program.statements c).bind _

/-- The zones that the build of a program creates. -/
def openings (session : Session) (program : Program) (b : Build) : List Opening :=
  Build.after (Build.ofExcept (program.inputs session)) b fun params b =>
    Build.after (prepare program.name params) b fun _ b =>
      bodyOpenings session program params { b with scopes := program.name :: b.scopes }

theorem covers_build (session : Session) (program : Program) (b : Build) :
    Covers (program.build session) b (program.openings session b) (program.parts.filter Statement.isZone) := by
  rw [build_eq, openings]
  refine Covers.after fun params c => Covers.after fun _ c => ?_
  exact Covers.bind (covers_runBody session program params _).inScope _

/-- The zone stands in the graph that a build leaves under a name, and has run if the build
succeeds. -/
def Houses (session : Session) (name : String) (run : Except BuildError Unit × Build) (zone : Opening) : Prop :=
  ∃ graph entry exit, run.2.store.get? name = some graph ∧ graph.Pairs session.classes zone entry exit ∧
    (run.1 = .ok () → graph.Iterates session name zone entry exit)

theorem houses_finish (standard : session.IsStandard) {b : Build}
    (hget : b.store.get? program.name = some graph.clear) (hempty : graph.interface.outputs = []) :
    let zones := bodyOpenings session program params { b with scopes := program.name :: b.scopes }
    (zones.map Opening.entry).Nodup ∧
      ∀ zone ∈ zones, Houses session program.name (exec (finish session program params) b) zone := by
  obtain ⟨_, draft, hleft, sound, _, coupled, _, _, logged, ran⟩ := @exists_runBody session standard program params
    { b with scopes := program.name :: b.scopes } graph rfl hget hempty
  refine ⟨logged.nodup, fun zone hzone => ?_⟩
  obtain ⟨entry, exit, pairs⟩ := (logged.stands zone hzone).pairs sound coupled
  -- Arranging the graph moves the two ends, but leaves what stands in them.
  obtain ⟨hresult, left, hleft, entry', exit', pairs', iterates⟩ := exec_finish_induction hleft
    (P := fun left => ∃ entry exit, left.Pairs session.classes zone entry exit ∧
      ((exec (runBody session params (program.body session))
        { b with scopes := program.name :: b.scopes }).1 = .ok () →
        left.Iterates session program.name zone entry exit))
    ⟨entry, exit, pairs, fun h => (ran h zone hzone).iterates sound pairs⟩ fun id position h => by
      obtain ⟨entry, exit, pairs, iterates⟩ := h
      obtain ⟨place, place', pairs⟩ := pairs.move id position
      exact ⟨_, _, pairs, fun h => (iterates h).move id position place place'⟩
  exact ⟨left, entry', exit', hleft, pairs', fun h => iterates (hresult ▸ h)⟩

/-- Each zone statement that gets past the creation of its zone leaves an entry and an exit, of its
flavour and of its own, with ports for its items in order at both sides of both. These are the first
zone statements, and all of them if the build succeeds. Then the step of each zone has got the
outputs of its entry for the items, and the inputs of its exit have got the next values in order. -/
theorem build_pairs_zones (s : Supply) (program : Program) (b : Build) :
    let session := Session.standard s
    let zones := program.openings session b
    Covers (program.build session) b zones (program.parts.filter Statement.isZone) ∧
      (zones.map Opening.entry).Nodup ∧
      ∀ zone ∈ zones, Houses session program.name (exec (program.build session) b) zone := by
  refine ⟨covers_build _ program b, ?_⟩
  unfold openings
  cases hinputs : program.inputs (Session.standard s) with
  | error e =>
    rw [after_error (exec_ofExcept _ b)]
    exact ⟨nodup_nil, fun _ h => absurd h not_mem_nil⟩
  | ok params =>
    obtain ⟨inputs, s', hprepare, _⟩ := exec_prepare b program.name params
    rw [after_ok (exec_ofExcept _ b), after_ok hprepare, build_eq, hinputs, exec_bind_ok (exec_ofExcept _ b),
      exec_bind_ok hprepare]
    exact @houses_finish { b.store.getD program.name with interface := { inputs } } _ program params
      (Session.isStandard_standard s)
      { b with store := b.store.set program.name (b.prepared program.name inputs), supply := s' }
      ((OrderedMap.get?_insert _ _ _ _).trans (if_pos rfl)) rfl

end Program

end Script

end NodeScript
