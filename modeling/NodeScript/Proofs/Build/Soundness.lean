import NodeScript.Proofs.Build.Bodies

/-!
# Graphs of programs are sound

Links keep joining enabled ports of types that connect while a graph is under construction, and they
lead from nodes that were completed earlier to nodes that are completed later or not at all. So the
graph that a program leaves behind is sound, whether the build succeeds or stops at an error.
-/

namespace NodeScript

open Draft OrderedMap List

variable {next : Nat}

namespace Draft

variable {rules : Rules} {draft draft' : Draft}

/-- All links join ports that they may join. -/
def Joined (draft : Draft) : Prop := ∀ link ∈ draft.graph.links.values, draft.graph.Joins link

/-- A link that passes the check joins the ports that it was allowed for. -/
theorem Linked.joins {link : Link} (linked : draft.Linked rules link) (sound : draft.Sound rules)
    (check : draft.graph.checkLink link.fromNode link.fromPort link.toNode link.toPort = .ok ()) :
    draft.graph.Joins link := by
  obtain ⟨source, target, output, input, hsource, htarget, houtput, hinput, hout, hin, hconnects, _⟩ :=
    (Graph.checkLink_eq_ok _).mp check
  obtain ⟨node, port, hnode, hport, hreferable⟩ := linked.start
  obtain ⟨node', port', hnode', hmem, hport', henabled, _⟩ := linked.finish
  rw [hsource, Option.some.injEq] at hnode
  rw [htarget, Option.some.injEq] at hnode'
  subst hnode hnode'
  obtain ⟨houtputMem, houtputId⟩ := Node.port?_eq_some houtput
  obtain ⟨hinputMem, hinputId⟩ := Node.port?_eq_some hinput
  have hsame : output = port := Node.eq_of_id_eq (sound.distinct hsource) houtputMem
    (mem_append_right _ hreferable.mem) (houtputId.trans hport.symm)
  have hsame' : input = port' := Node.eq_of_id_eq (sound.distinct htarget) hinputMem
    (mem_append_left _ hmem) (hinputId.trans hport'.symm)
  subst hsame hsame'
  exact ⟨source, target, output, input, hsource, htarget,
    hreferable.mem, hport, hout, hreferable.enabled, hmem, hport',
    hin, henabled, hconnects⟩

/-- Nodes whose ports are all still there. -/
theorem Joined.keep (joined : draft.Joined) {graph : Graph} (links : graph.links = draft.graph.links)
    (nodes : ∀ {id node}, draft.graph.node? id = some node → graph.node? id = some node) :
    ∀ link ∈ graph.links.values, graph.Joins link := by
  intro link hlink
  rw [links] at hlink
  exact (joined link hlink).congr (fun hnode => ⟨_, nodes hnode, fun _ h => h⟩)
    fun hnode hport _ => ⟨_, nodes hnode, hport⟩

theorem Joined.add (joined : draft.Joined) {node : Node} (unused : draft.Unused node.id) {info : NodeId → Info}
    : Joined { draft with graph := draft.graph.withNode node, info, next } := by
  refine joined.keep rfl fun {id old} hold => ?_
  rw [Graph.node?_withNode, if_neg]
  · exact hold
  · rintro rfl
    rw [unused.node] at hold
    cases hold

theorem Step.joined (step : Step rules draft draft') (sound : draft.Sound rules) (joined : draft.Joined) :
    draft'.Joined := by
  cases step with
  | skip => exact joined
  | close => exact joined
  | add made le unused => exact joined.add (unused _ mem_cons_self)
  | zone le entryMade entryUnused entryInner entryAllowed exitMade exitUnused =>
    exact Joined.add (joined.add (entryUnused _ mem_cons_self)) (exitUnused _ mem_cons_self)
  | @revise node node' found opened inner shape ports linked =>
    have hother : ∀ {id : NodeId}, id ≠ node.id →
        (draft.graph.updateNode node.id fun _ => node').node? id = draft.graph.node? id := fun h => by
      rw [Graph.node?, Graph.updateNode, get?_modify, if_neg h]
      rfl
    have hnew : (draft.graph.updateNode node.id fun _ => node').node? node.id = some node' := by
      rw [Graph.node?] at found
      rw [Graph.node?, Graph.updateNode, get?_modify, if_pos rfl, found]
      rfl
    intro link hlink
    refine (joined link hlink).congr ?_ ?_
    · intro start hstart
      have hne : link.fromNode ≠ node.id := fun h => opened (h ▸ (sound.linked link hlink).ready)
      exact ⟨start, (hother hne).trans hstart, fun _ h => h⟩
    · intro finish port hfinish hport hid
      by_cases heq : link.toNode = node.id
      · rw [heq, found, Option.some.injEq] at hfinish
        subst hfinish
        refine ⟨node', heq ▸ hnew, linked port hport ?_⟩
        exact any_eq_true.mpr ⟨link, hlink, decide_eq_true hid.symm⟩
      · exact ⟨finish, (hother heq).trans hfinish, hport⟩
  | @link link next le lt check opened linked =>
    have hfresh := sound.link_not_mem le
    intro other hother
    change other ∈ (draft.graph.withLink link).links.values at hother
    rw [Graph.values_withLink _ hfresh, mem_append, mem_singleton] at hother
    have hkeep : ∀ {l : Link}, draft.graph.Joins l → (draft.graph.withLink link).Joins l := fun h =>
      h.congr (fun hnode => ⟨_, hnode, fun _ h => h⟩) fun hnode hport _ => ⟨_, hnode, hport⟩
    rcases hother with hold | rfl
    · exact hkeep (joined other hold)
    · exact hkeep (linked.joins sound check)
  | @output entry port next le lt plain form =>
    obtain ⟨hopened, _, sink, hsink, _⟩ := sound.sink
    have hother : ∀ {id : NodeId}, id ≠ draft.sink →
        (draft.graph.withOutput draft.sink entry port).node? id = draft.graph.node? id := fun h => by
      rw [Graph.node?, Graph.withOutput, Graph.updateNode, get?_modify, if_neg h]
      rfl
    have hnew : (draft.graph.withOutput draft.sink entry port).node? draft.sink =
        some { sink with inputs := sink.inputs ++ [port] } := by
      rw [Graph.node?] at hsink
      rw [Graph.node?, Graph.withOutput, Graph.updateNode, get?_modify, if_pos rfl, hsink]
      rfl
    intro link hlink
    refine (joined link hlink).congr ?_ ?_
    · intro start hstart
      have hne : link.fromNode ≠ draft.sink := fun h => hopened (h ▸ (sound.linked link hlink).ready)
      exact ⟨start, (hother hne).trans hstart, fun _ h => h⟩
    · intro finish port' hfinish hport' _
      by_cases heq : link.toNode = draft.sink
      · rw [heq, hsink, Option.some.injEq] at hfinish
        subst hfinish
        refine ⟨{ sink with inputs := sink.inputs ++ [port] }, ?_, mem_append_left _ hport'⟩
        rw [heq]
        exact hnew
      · exact ⟨finish, (hother heq).trans hfinish, hport'⟩

theorem Steps.joined (steps : Steps rules draft draft') (sound : draft.Sound rules) (joined : draft.Joined) :
    draft'.Joined := by
  induction steps with
  | refl => exact joined
  | tail first step ih => exact step.joined (Steps.sound first sound) ih

/-- Results have no defaults. -/
def Bare (draft : Draft) : Prop := ∀ entry ∈ draft.graph.interface.outputs, entry.default = none

theorem Step.bare (step : Step rules draft draft') (bare : draft.Bare) : draft'.Bare := by
  cases step with
  | @output entry port next le lt plain form =>
    intro other hother
    rcases mem_append.mp hother with hold | hnew
    · exact bare other hold
    · rw [mem_singleton.mp hnew]
      exact congrArg Declaration.default plain
  | _ => exact bare

theorem Steps.bare (steps : Steps rules draft draft') (bare : draft.Bare) : draft'.Bare := by
  induction steps with
  | refl => exact bare
  | tail _ step ih => exact step.bare ih

theorem Sound.isSound (sound : draft.Sound rules) (joined : draft.Joined) : draft.graph.IsSound :=
  ⟨joined, sound.ranked.acyclic, sound.ranked.order?_isSome⟩

/-- Without results the sink has no ports. -/
theorem Sound.exists_sink (sound : draft.Sound rules) (h : draft.graph.interface.outputs = []) :
    ∃ sink, draft.graph.node? draft.sink = some sink ∧ sink.inputs = [] := by
  obtain ⟨_, _, sink, hsink, _, _, hsockets⟩ := sound.sink
  rw [h] at hsockets
  exact ⟨sink, hsink, map_eq_nil_iff.mp hsockets⟩

end Draft

/-! ## Whole builds -/

/-- Boundary nodes are paired with nothing. -/
theorem Framed.coupled {graph : Graph} {source sink : Node} (framed : Framed graph source sink next) :
    (firstDraft graph source sink next).Coupled := by
  intro id node exit hnode hpaired
  have hinner := (framed.tended.paired hnode hpaired).1
  change ((graph.withNode source).withNode sink).node? id = some node at hnode
  rw [Graph.node?_withNode, Graph.node?_withNode, Graph.node?, framed.nodes] at hnode
  split at hnode
  · cases hnode
    rw [framed.sinkRole] at hinner
    cases hinner
  · split at hnode
    · cases hnode
      rw [framed.sourceRole] at hinner
      cases hinner
    · cases hnode

/-- A graph that is left by a construction under some rules and has given inputs. -/
structure Graph.Built (rules : Rules) (inputs : List Entry) (graph : Graph) : Prop where
  drafted : ∃ draft : Draft, draft.graph = graph ∧ draft.Sound rules ∧ draft.Joined ∧ draft.Coupled
  inputs : graph.interface.inputs = inputs
  outputs : ∀ entry ∈ graph.interface.outputs, entry.default = none

namespace Graph.Built

variable {rules : Rules} {inputs : List Entry} {graph graph' : Graph}

theorem isSound (built : graph.Built rules inputs) : graph.IsSound := by
  obtain ⟨draft, rfl, sound, joined, _⟩ := built.drafted
  exact sound.isSound joined

theorem move (built : graph.Built rules inputs) (id : NodeId) (position : Single × Single) :
    (graph.move id position).Built rules inputs := by
  obtain ⟨draft, rfl, sound, joined, coupled⟩ := built.drafted
  exact ⟨⟨_, rfl, sound.move id position, fun link hlink => (joined link hlink).move id position,
    coupled.move id position⟩, built.inputs, built.outputs⟩

end Graph.Built

namespace Build

variable {session : Session} {graph : Graph} {P : Graph → Prop}

/-- The graph of a name, emptied and with new inputs. -/
def prepared (b : Build) (name : String) (inputs : List Entry) : Graph :=
  ({ b.store.getD name with interface := { inputs } }).clear

/-- The rules of building a program in a store: functions that are no kinds mean the graphs of the
store. -/
def rulesOf (store : Store) (program : Script.Program) : Rules where
  callee? function :=
    if function ∈ Catalog.functionNames then none
    else
      match store.graphs.values.find? fun graph => snakeCase graph.name = function with
      | none => none
      | some graph => (store.get? graph.name).map fun target => (graph.name, target.interface)
  item name := name ∈ program.itemNames
  call function names := ∃ statement ∈ program.parts, statement.Calls function names
  refers function text := ∃ target args, Script.Statement.call target function args ∈ program.parts ∧
    (graphProperty, Script.Value.literal (.text text)) ∈ args
  selected output := ∃ base, Script.Value.select base output ∈ program.leaves
  depth := program.depth

/-- Whatever entries are kept, the new ones declare what is asked for. -/
theorem map_declaration_reconcile (olds : List Entry) (declarations : List Declaration) (s : Supply) :
    (reconcile olds declarations s).1.map Entry.toDeclaration = declarations := by
  induction declarations generalizing olds s with
  | nil =>
    rw [reconcile]
    rfl
  | cons declaration rest ih =>
    cases olds with
    | nil =>
      rw [reconcile]
      exact congrArg (declaration :: ·) (ih [] _)
    | cons old olds =>
      rw [reconcile]
      split
      · exact congrArg (declaration :: ·) (ih olds _)
      · exact congrArg (declaration :: ·) (ih olds _)

theorem exec_prepare (b : Build) (name : String) (params : List ResolvedParam) :
    ∃ inputs s, exec (prepare name params) b =
        (.ok (), { b with store := b.store.set name (b.prepared name inputs), supply := s }) ∧
      reconcile (b.store.getD name).interface.inputs (params.map ResolvedParam.declaration) b.supply = (inputs, s) :=
  ⟨_, _, rfl, rfl⟩

theorem map_declaration_of_reconcile {olds inputs : List Entry} {declarations : List Declaration} {s s' : Supply}
    (h : reconcile olds declarations s = (inputs, s')) : inputs.map Entry.toDeclaration = declarations := by
  have hall := map_declaration_reconcile olds declarations s
  rwa [h] at hall

theorem exec_inScope {α : Type} (name : String) (m : BuildM α) (b : Build) : exec (inScope name m) b =
    ((exec m { b with scopes := name :: b.scopes }).1,
      { (exec m { b with scopes := name :: b.scopes }).2 with
        scopes := (exec m { b with scopes := name :: b.scopes }).2.scopes.tail }) := rfl

/-- Where the graph of a program is built. -/
def siteOf (session : Session) (store : Store) (program : Script.Program) : Site :=
  ⟨session, rulesOf store program, program.name⟩

theorem selects_siteOf (session : Session) (store : Store) {program : Script.Program} :
    ∀ value ∈ program.values, Script.Environment.Selects (siteOf session store program).rules.selected value :=
  fun _ hvalue base _ hleaf => ⟨base, Script.Value.leaves_subset hvalue hleaf⟩

theorem follows_siteOf (session : Session) (store : Store) (program : Script.Program) :
    (siteOf session store program).Follows [] program.statements := by
  constructor
  · exact fun statement hpart _ _ hcalls => ⟨statement, hpart, hcalls⟩
  · exact fun target function args hpart text htext => ⟨target, args, hpart, htext⟩
  · exact fun statement hpart item hitem => mem_flatMap.mpr ⟨statement, hpart, mem_map_of_mem hitem⟩
  · intro statement hpart value hvalue
    exact selects_siteOf session store value (mem_append_left _ (mem_append_right _
      (mem_flatMap.mpr ⟨statement, hpart, hvalue⟩)))
  · exact Nat.le_of_eq (Nat.zero_add _)

/-- Both boundary nodes come first. -/
theorem exists_start (standard : session.IsStandard) (program : Script.Program) {b : Build}
    (hscope : b.scopes.head? = some program.name) (hget : b.store.get? program.name = some graph.clear) :
    ∃ draft b', draft.Sound (rulesOf b.store program) ∧ draft.Joined ∧ draft.Coupled ∧
      draft.graph.interface = graph.interface ∧ (siteOf session b.store program).At draft b' ∧
      ∀ {α : Type} (rest : NodeId → NodeId → BuildM α), exec (do
        let source ← addNode session groupInputKind
        let sink ← addNode session groupOutputKind
        rest source sink) b = exec (rest draft.source draft.sink) b' := by
  have hcurrent : b.current? = some graph.clear := by
    rw [current?, hscope]
    exact hget
  obtain ⟨⟨sourceSpec, sourceListed, sourceId, sourceRole, sourceInputs⟩,
    ⟨sinkSpec, sinkListed, sinkId, sinkRole, sinkOutputs⟩⟩ := boundaryKinds
  obtain ⟨sourceKind, hsourceKind, sourceMinted⟩ := standard.catalog.exists_kind sourceListed
  obtain ⟨sinkKind, hsinkKind, sinkMinted⟩ := standard.catalog.exists_kind sinkListed
  rw [sourceId] at hsourceKind
  rw [sinkId] at hsinkKind
  obtain ⟨source, s, hsource, tended, hnone, hrole, hinputs, _⟩ := exec_addNode_tended hcurrent
    (Graph.tended_clear graph _) hsourceKind
  obtain ⟨sink, s', hsink, tended', hnone', hrole', _, houtputs⟩ := exec_addNode_tended
    (current?_put ((current?_withSupply b s).trans hcurrent) _) (by rw [supply_put]; exact tended) hsinkKind
  have hsourceRole : source.role = .groupInput := hrole.trans (sourceMinted.role.trans sourceRole)
  have hsinkRole : sink.role = .groupOutput := hrole'.trans (sinkMinted.role.trans sinkRole)
  have hne : source.id ≠ sink.id := by
    intro heq
    rw [Graph.node?_withNode, if_pos heq.symm] at hnone'
    cases hnone'
  have framed : Framed graph.clear source sink s'.next := ⟨rfl, rfl, tended', hsourceRole, hsinkRole,
    hinputs hsourceRole (map_eq_nil_iff.mp (sourceMinted.inputs.trans sourceInputs)),
    houtputs hsinkRole (map_eq_nil_iff.mp (sinkMinted.outputs.trans sinkOutputs))⟩
  have serves : (siteOf session b.store program).Serves b.store := by
    intro function found target hfunction hfind _ htarget
    dsimp only [siteOf, rulesOf]
    rw [if_neg (standard.not_mem_functionNames hfunction), hfind]
    dsimp only
    rw [htarget]
    rfl
  -- A draft of the emptied graph, which only says where the build stands.
  let blank : Draft := { firstDraft graph.clear source sink b.supply.next with graph := graph.clear }
  have hblank : (siteOf session b.store program).At blank b := ⟨hscope, hget, rfl, serves⟩
  refine ⟨firstDraft graph.clear source sink s'.next,
    (b.withSupply s').put ((graph.clear.withNode source).withNode sink),
    framed.sound _ hne, fun _ hlink => (by cases hlink), framed.coupled, rfl, ?_, fun rest => ?_⟩
  · exact (@Site.At.put _ blank (firstDraft graph.clear source sink s'.next) b hblank rfl s' rfl).1
  · rw [exec_bind_ok hsource, exec_bind_ok hsink, withSupply_put, put_put]
    rfl

/-- All that a program does in its emptied graph before its statements; gives what its names stand
for there. -/
def enterBody (session : Session) (program : Script.Program) (params : List ResolvedParam) :
    BuildM Script.Environment := do
  let source ← addNode session groupInputKind
  let _ ← addNode session groupOutputKind
  let inputs ← bodyInputs source params 0 ∅
  ofExcept (Script.Program.environment inputs program.params ∅)

/-- The zones that a program creates in its emptied graph. -/
def bodyOpenings (session : Session) (program : Script.Program) (params : List ResolvedParam) (b : Build) :
    List Opening :=
  after (enterBody session program params) b fun bound b =>
    Script.Statement.openingsIn session bound program.statements b

/-- The body of a program runs in an emptied graph. The zones that it creates stand in what it
leaves. -/
theorem exists_runBody (standard : session.IsStandard) (program : Script.Program) (params : List ResolvedParam)
    {b : Build} {graph : Graph} (hscope : b.scopes.head? = some program.name)
    (hget : b.store.get? program.name = some graph.clear) (hempty : graph.interface.outputs = []) :
    ∃ before draft : Draft,
      (exec (runBody session params (program.body session)) b).2.store.get? program.name = some draft.graph ∧
      draft.Sound (rulesOf b.store program) ∧ draft.Joined ∧ draft.Coupled ∧ draft.Bare ∧
      draft.graph.interface.inputs = graph.interface.inputs ∧
      (siteOf session b.store program).Logged before draft (bodyOpenings session program params b) ∧
      ((exec (runBody session params (program.body session)) b).1 = .ok () →
        ∀ zone ∈ bodyOpenings session program params b, zone.Ran (siteOf session b.store program) draft) := by
  obtain ⟨first, b', sound, joined, coupled, hsame, hat, hexec⟩ := exists_start standard program hscope hget
  have bare : first.Bare := by
    intro entry hentry
    rw [hsame, hempty] at hentry
    cases hentry
  have hlogs : (siteOf session b.store program).Logs first ((do
      let inputs ← bodyInputs first.source params 0 ∅
      program.body session inputs) >>= fun returns => do
        let outputs ← collect session returns
        bindOutputs session first.sink outputs 0)
      (fun b => after (bodyInputs first.source params 0 ∅) b fun inputs b =>
        after (ofExcept (Script.Program.environment inputs program.params ∅)) b fun bound b =>
          Script.Statement.openingsIn session bound program.statements b) first fun _ _ => True := by
    refine (Site.logs_returns standard program params sound (follows_siteOf session b.store program)
      fun value hvalue => selects_siteOf session b.store value (mem_append_right _ hvalue)).bindRuns sound
      (.refl first) ?_
    rintro returns draft sound' later ⟨undisturbed, values, rfl, held⟩
    obtain ⟨sink, hsink, hports⟩ := sound.exists_sink (congrArg Interface.outputs hsame |>.trans hempty)
    have hresults :=
      Site.runs_results standard sound' (later.sink.symm ▸ undisturbed.node?_eq hsink not_false) hports held
    rw [later.sink] at hresults
    exact hresults.mono fun _ _ _ => trivial
  have hzones : bodyOpenings session program params b = after (bodyInputs first.source params 0 ∅) b' fun inputs b =>
      after (ofExcept (Script.Program.environment inputs program.params ∅)) b fun bound b =>
        Script.Statement.openingsIn session bound program.statements b := by
    rw [bodyOpenings, after, enterBody, hexec, ← after_bind, after]
  rw [bind_assoc] at hlogs
  obtain ⟨draft, steps, hat', _, logged, hok⟩ := hlogs b' hat
  rw [runBody, hexec, hzones]
  exact ⟨first, draft, hat'.graph, Steps.sound steps sound, steps.joined sound joined, steps.coupled sound coupled,
    Steps.bare steps bare, (Steps.later steps sound).inputs.trans (congrArg Interface.inputs hsame), logged,
    fun h => (hok () h).2⟩

/-- What holds of a graph wherever its nodes are holds of it after its layout, also if that
fails. -/
theorem exec_arrange_induction {b : Build} {name : String} (hget : b.store.get? name = some graph) (start : P graph)
    (move : ∀ {graph : Graph} (id : NodeId) (position : Single × Single), P graph → P (graph.move id position)) :
    (exec (arrange session name) b).1 = .ok () ∧
      ∃ graph', (exec (arrange session name) b).2.store.get? name = some graph' ∧ P graph' := by
  unfold arrange
  rw [exec_bind_ok (exec_get b), hget]
  dsimp only
  cases harrange : graph.arrange session.settings.layout with
  | error e => exact ⟨rfl, graph, hget, start⟩
  | ok graph' =>
    exact ⟨rfl, graph', get?_insert_self, Graph.arrange_induction harrange start move⟩

/-- What is left to do once the graph of a program has been emptied. -/
def finish (session : Session) (program : Script.Program) (params : List ResolvedParam) : BuildM Unit := do
  inScope program.name (runBody session params (program.body session))
  if session.settings.autoLayout then arrange session program.name

/-- What holds of the graph that a body leaves, wherever its nodes are, holds at the end. Whether
the build succeeds is settled by then. -/
theorem exec_finish_induction {program : Script.Program} {params : List ResolvedParam} {b : Build}
    (hget : (exec (runBody session params (program.body session))
      { b with scopes := program.name :: b.scopes }).2.store.get?
      program.name = some graph) (start : P graph)
    (move : ∀ {graph : Graph} (id : NodeId) (position : Single × Single), P graph → P (graph.move id position)) :
    (exec (finish session program params) b).1 =
        (exec (runBody session params (program.body session)) { b with scopes := program.name :: b.scopes }).1 ∧
      ∃ graph', (exec (finish session program params) b).2.store.get? program.name = some graph' ∧ P graph' := by
  have hscope := exec_inScope program.name (runBody session params (program.body session)) b
  revert hget hscope
  generalize exec (runBody session params (program.body session)) _ = run
  obtain ⟨result, after⟩ := run
  intro hget hscope
  unfold finish
  cases result with
  | error e =>
    rw [exec_bind_error hscope]
    exact ⟨rfl, graph, hget, start⟩
  | ok _ =>
    rw [exec_bind_ok hscope]
    split
    · exact exec_arrange_induction hget start move
    · exact ⟨rfl, graph, hget, start⟩

theorem built_finish (standard : session.IsStandard) (program : Script.Program) (params : List ResolvedParam)
    {b : Build} {graph : Graph} (hget : b.store.get? program.name = some graph.clear)
    (hempty : graph.interface.outputs = []) :
    ∃ graph', (exec (finish session program params) b).2.store.get? program.name = some graph' ∧
      graph'.Built (rulesOf b.store program) graph.interface.inputs := by
  obtain ⟨_, draft, hleft, sound, joined, coupled, bare, hinputs, _⟩ :=
    @exists_runBody session standard program params
    { b with scopes := program.name :: b.scopes } graph rfl hget hempty
  exact (exec_finish_induction hleft ⟨⟨draft, rfl, sound, joined, coupled⟩, hinputs, bare⟩
    fun id position built => built.move id position).2

end Build

namespace Script.Program

open Build

variable {params : List ResolvedParam}

/-- The inputs that the graph of a program gets, or the fault in its parameters. -/
def inputs (program : Program) (session : Session) : Except BuildError (List ResolvedParam) := do
  (← signature program.params).validate session.classes

variable {session : Session} {program : Program}

theorem build_eq (session : Session) (program : Program) : program.build session = (do
    let params ← Build.ofExcept (program.inputs session)
    prepare program.name params
    finish session program params) := by
  unfold Program.build Build.build inputs
  cases signature program.params with
  | error e => rfl
  | ok found => rfl

/-- A program whose parameters are faulty changes nothing. -/
theorem exec_build_error {e : BuildError} (h : program.inputs session = .error e) (b : Build) :
    exec (program.build session) b = (.error e, b) := by
  rw [build_eq, h]
  exact exec_bind_error (exec_ofExcept _ b)

/-- Otherwise it empties its graph first. -/
theorem exec_build_ok (h : program.inputs session = .ok params) (b : Build) :
    ∃ inputs s, exec (program.build session) b = exec (finish session program params)
        { b with store := b.store.set program.name (b.prepared program.name inputs), supply := s } ∧
      inputs.map Entry.toDeclaration = params.map ResolvedParam.declaration := by
  obtain ⟨inputs, s, hprepare, hinputs⟩ := exec_prepare b program.name params
  refine ⟨inputs, s, ?_, map_declaration_of_reconcile hinputs⟩
  rw [build_eq, h, exec_bind_ok (exec_ofExcept (.ok params) b), exec_bind_ok hprepare]

/-- A program whose parameters are fine leaves a graph with its inputs behind, whether the build
succeeds or not. The graphs that it calls are those of the store with its own graph emptied. -/
theorem built_build_prepared (s : Supply) (h : program.inputs (Session.standard s) = .ok params) (b : Build) :
    ∃ graph inputs,
      (exec (program.build (Session.standard s)) b).2.store.get? program.name = some graph ∧
      graph.Built (rulesOf (b.store.set program.name (b.prepared program.name inputs)) program) inputs ∧
      inputs.map Entry.toDeclaration = params.map ResolvedParam.declaration := by
  obtain ⟨inputs, s', hexec, hdeclared⟩ := exec_build_ok h b
  rw [hexec]
  obtain ⟨graph, hget, built⟩ := @built_finish _ (Session.isStandard_standard s) program params
    { b with store := b.store.set program.name (b.prepared program.name inputs), supply := s' }
    { b.store.getD program.name with interface := { inputs } } get?_insert_self
    rfl
  exact ⟨graph, inputs, hget, built, hdeclared⟩

theorem built_build (s : Supply) (h : program.inputs (Session.standard s) = .ok params) (b : Build) :
    ∃ graph store inputs,
      (exec (program.build (Session.standard s)) b).2.store.get? program.name = some graph ∧
      graph.Built (rulesOf store program) inputs ∧
      inputs.map Entry.toDeclaration = params.map ResolvedParam.declaration := by
  obtain ⟨graph, inputs, hget, built, hdeclared⟩ := built_build_prepared s h b
  exact ⟨graph, _, inputs, hget, built, hdeclared⟩

/-- A program whose parameters are faulty changes nothing. Otherwise its graph is sound afterwards,
whether the build succeeds or not. -/
theorem isSound_build (s : Supply) (program : Program) (b : Build) :
    match program.inputs (Session.standard s) with
    | .error e => exec (program.build (Session.standard s)) b = (.error e, b)
    | .ok _ => ∃ graph, (exec (program.build (Session.standard s)) b).2.store.get? program.name = some graph ∧
        graph.IsSound := by
  cases hinputs : program.inputs (Session.standard s) with
  | error e => exact exec_build_error hinputs b
  | ok params =>
    obtain ⟨graph, _, _, hget, built, _⟩ := built_build s hinputs b
    exact ⟨graph, hget, built.isSound⟩

end Script.Program

end NodeScript
