import NodeScript.Proofs.Build.Growth
import NodeScript.Proofs.Build.Leftovers

/-!
# The order of arguments

Properties, inputs and items take their arguments by name and in their own order. What is left over
gives defaults to outputs, each to another one, or is only noted. So arguments in another order do
the same, up to the order of warnings.
-/

namespace NodeScript

open Build List

/-! ## Steps and maps in any order -/

/-- Steps that may fail give the same in any order, where those of different keys commute. -/
theorem foldlM_perm {σ α ε κ : Type} {step : σ → α → Except ε σ} {key : α → κ}
    (comm : ∀ {s t u} a a', key a ≠ key a' → step s a = .ok t → step t a' = .ok u →
      ∃ t', step s a' = .ok t' ∧ step t' a = .ok u)
    {as as' : List α} (perm : as.Perm as') (keys : (as.map key).Nodup) {s t : σ} (h : as.foldlM step s = .ok t) :
    as'.foldlM step s = .ok t := by
  induction perm generalizing s t with
  | nil => exact h
  | cons a _ ih =>
    obtain ⟨u, hu, hrest⟩ := Except.bind_eq_ok.mp h
    exact Except.bind_eq_ok.mpr ⟨u, hu, ih (nodup_cons.mp keys).2 hrest⟩
  | swap a a' rest =>
    obtain ⟨u, hu, h⟩ := Except.bind_eq_ok.mp h
    obtain ⟨v, hv, hrest⟩ := Except.bind_eq_ok.mp h
    have hne : key a' ≠ key a := fun heq => (nodup_cons.mp keys).1 (by simp [heq])
    obtain ⟨u', hu', hv'⟩ := comm a' a hne hu hv
    exact Except.bind_eq_ok.mpr ⟨u', hu', Except.bind_eq_ok.mpr ⟨v, hv', hrest⟩⟩
  | trans perm _ ih ih' => exact ih' ((perm.map key).nodup_iff.mp keys) (ih keys h)

namespace OrderedMap

variable {κ α : Type} [DecidableEq κ] {m m' : OrderedMap κ α}

/-- The maps have the same values under the same keys. -/
def Same (m m' : OrderedMap κ α) : Prop := ∀ k, m'.get? k = m.get? k

theorem Same.refl (m : OrderedMap κ α) : m.Same m := fun _ => rfl

theorem Same.erase (same : m.Same m') (k : κ) : (m.erase k).Same (m'.erase k) := by
  intro j
  rw [get?_erase, get?_erase, same j]

theorem Same.perm (same : m.Same m') : m.entries.Perm m'.entries := by
  refine (perm_ext_iff_of_nodup (.of_map _ m.nodup) (.of_map _ m'.nodup)).mpr fun e => ?_
  rw [← get?_eq_some_iff, ← get?_eq_some_iff, same e.1]

end OrderedMap

/-! ## Defaults of outputs -/

namespace Node

variable {node node' : Node} {name name' : String} {argument argument' : Argument}

/-- Outputs of different names take their defaults in any order. -/
theorem giveDefault_comm {node'' : Node} (hne : name ≠ name') (first : node.giveDefault name argument = .ok node')
    (second : node'.giveDefault name' argument' = .ok node'') :
    ∃ middle, node.giveDefault name' argument' = .ok middle ∧ middle.giveDefault name argument = .ok node'' := by
  have hother : ∀ {name name' : String} (port : Port), name ≠ name' → takesDefault name port = true →
      takesDefault name' port = false := by
    intro name name' port hne h
    simp only [takesDefault, Bool.and_eq_true, decide_eq_true_eq] at h
    simp [takesDefault, h.2.2, hne]
  have hfilled : ∀ {name name' : String} (value : Literal) (port : Port),
      name ≠ name' → takesDefault name port = true →
      takesDefault name' { port with default := some value } = false := by
    intro name name' value port hne h
    simp only [takesDefault, Bool.and_eq_true, decide_eq_true_eq] at h
    simp [takesDefault, h.2.2, hne]
  have hfind : ∀ {name name' : String} (value : Literal) (ports : List Port), name ≠ name' →
      (updateFirst (takesDefault name) (fun port => { port with default := some value }) ports).find?
        (takesDefault name') = ports.find? (takesDefault name') := fun value ports hne =>
    find?_updateFirst (fun port h => (hfilled value port hne h).trans (hother port hne h).symm)
      (fun port => hother port hne) ports
  obtain ⟨value, hvalue, rfl⟩ := giveDefault_eq_ok.mp first
  obtain ⟨value', hvalue', rfl⟩ := giveDefault_eq_ok.mp second
  refine ⟨_, giveDefault_eq_ok.mpr ⟨value', ?_, rfl⟩, giveDefault_eq_ok.mpr ⟨value, ?_, ?_⟩⟩
  · intro port hport
    exact hvalue' port ((hfind value node.outputs hne).trans hport)
  · intro port hport
    exact hvalue port ((hfind value' node.outputs hne.symm).symm.trans hport)
  · rw [updateFirst_comm (fun port => hother port hne) (fun port => hfilled value port hne)
      fun port => hfilled value' port hne.symm]

/-- Arguments of different names give their defaults in any order. -/
theorem giveDefaults_perm {entries entries' : List (String × Argument)} (perm : entries.Perm entries')
    (names : (entries.map Prod.fst).Nodup)
    (h : entries.foldlM (fun node e => node.giveDefault e.1 e.2) node = .ok node') :
    entries'.foldlM (fun node e => node.giveDefault e.1 e.2) node = .ok node' := by
  apply foldlM_perm ?_ perm names h
  exact fun _ _ hne first second => giveDefault_comm hne first second

end Node

/-! ## Ports that differ -/

/-- The ports of the node differ from each other, and from those that will be drawn. -/
def Graph.DistinctAt (graph : Graph) (next : Nat) (id : NodeId) : Prop :=
  ∀ node, graph.node? id = some node → node.portIds.Nodup ∧ ∀ port ∈ node.portIds, port.code < next

theorem Graph.Grows.distinctAt {lo hi : Nat} {graph graph' : Graph} (grows : graph.Grows lo hi graph') {id : NodeId}
    (distinct : graph.DistinctAt lo id) : graph'.DistinctAt hi id := by
  intro node' hnode'
  have hsucceeds : ∃ ids : List Identity, ids.Nodup ∧ (∀ port ∈ ids, port.code < lo) ∧
      Succeeds lo hi ids node'.portIds := by
    rcases grows.ports hnode' with ⟨node, hnode, h⟩ | ⟨_, h⟩
    · exact ⟨_, (distinct node hnode).1, (distinct node hnode).2, h⟩
    · exact ⟨[], .nil, fun _ hmem => (by cases hmem), h⟩
  obtain ⟨ids, nodup, codes, h⟩ := hsucceeds
  refine ⟨h.nodup nodup codes, fun port hport => ?_⟩
  rcases h.mem port hport with hold | hnew
  · exact Nat.lt_of_lt_of_le (codes port hold) grows.le
  · exact hnew.2

namespace Build

variable {α β : Type} {b c : Build} {g : Graph} {id : NodeId} {node : Node} {session : Session}
  {arguments arguments' initial initial' : Arguments}

/-- The ports of a node of the active graph differ. -/
def DistinctAt (b : Build) (id : NodeId) : Prop := ∃ g, b.current? = some g ∧ g.DistinctAt b.supply.next id

theorem DistinctAt.within (distinct : b.DistinctAt id) (within : growing.Within b c) : c.DistinctAt id := by
  obtain ⟨g, hg, hdistinct⟩ := distinct
  obtain ⟨g', hg', grows⟩ := within.current g hg
  exact ⟨g', hg', Graph.Grows.distinctAt grows hdistinct⟩

theorem DistinctAt.nodup (distinct : b.DistinctAt id) (hg : b.current? = some g) (hnode : g.node? id = some node) :
    node.portIds.Nodup := by
  obtain ⟨g', hg', hdistinct⟩ := distinct
  rw [hg, Option.some.injEq] at hg'
  subst hg'
  exact (hdistinct node hnode).1

/-- A new node has ports of its own. -/
theorem distinctAt_addNode {kind : String} (h : exec (addNode session kind) b = (.ok id, c)) : c.DistinctAt id := by
  unfold addNode at h
  cases hkind : session.catalog.get? kind with
  | none =>
    rw [hkind] at h
    cases h
  | some found =>
    rw [hkind] at h
    dsimp only at h
    rw [exec_bind_ok (exec_draw _ b)] at h
    obtain ⟨g, b₁, hgraph, h⟩ := exec_bind_eq_ok.mp h
    obtain ⟨hg, rfl⟩ := exec_graph_eq_ok.mp hgraph
    rw [exec_bind_ok (exec_draw _ _), exec_bind_ok (exec_putGraph ((current?_withSupply _ _).trans hg) _)] at h
    cases h
    refine ⟨_, current?_put ((current?_withSupply _ _).trans hg) _, ?_⟩
    have hdraws := Node.draws_ofKind found b.supply
    have hnew : (g.withNode (Node.ofKind found b.supply).1).DistinctAt (Node.ofKind found b.supply).2.next
        (Node.ofKind found b.supply).1.id := by
      intro node hnode
      rw [Graph.node?_withNode, if_pos rfl, Option.some.injEq] at hnode
      subst hnode
      exact ⟨(nodup_cons.mp hdraws.nodup).2, fun port hport =>
        (hdraws.range port (mem_cons_of_mem _ hport)).2⟩
    rw [supply_put]
    unfold Graph.addNode
    split
    · exact (Graph.Grows.alignBoundary _ _).distinctAt hnew
    · exact hnew

/-! ## Binding arguments in another order -/

/-- Where the first step succeeds, the second one gives the same result and leaves the same build
behind, up to warnings. -/
def FollowsAt (b : Build) (m m' : BuildM α) : Prop :=
  ∀ a c, exec m b = (.ok a, c) → ∃ warnings, exec m' b = (.ok a, c.withWarnings warnings)

theorem FollowsAt.refl (m : BuildM α) : FollowsAt b m m := fun _ c h => ⟨c.warnings, h⟩

/-- Steps that leave the same build behind, with results that lead on to the same. -/
theorem FollowsAt.bind_exists {m m' : BuildM α} {f f' : α → BuildM β}
    (h : ∀ a b', exec m b = (.ok a, b') → ∃ a', exec m' b = (.ok a', b') ∧ FollowsAt b' (f a) (f' a')) :
    FollowsAt b (m >>= f) (m' >>= f') := by
  intro r c hexec
  obtain ⟨a, b', hm, hf⟩ := exec_bind_eq_ok.mp hexec
  obtain ⟨a', hm', hfollows⟩ := h a b' hm
  obtain ⟨warnings, hf'⟩ := hfollows r c hf
  exact ⟨warnings, (exec_bind_ok hm').trans hf'⟩

theorem FollowsAt.bind {m : BuildM α} {f f' : α → BuildM β}
    (h : ∀ a b', exec m b = (.ok a, b') → FollowsAt b' (f a) (f' a)) : FollowsAt b (m >>= f) (m >>= f') :=
  .bind_exists fun a b' hm => ⟨a, hm, h a b' hm⟩

/-- Steps that follow each other, with the same to come. Other warnings make no difference to
that. -/
theorem FollowsAt.andThen {m m' : BuildM α} {f f' : α → BuildM β} (first : FollowsAt b m m')
    (mute : ∀ a (b' : Build), b'.Mute (f' a)) (second : ∀ a b', exec m b = (.ok a, b') → FollowsAt b' (f a) (f' a)) :
    FollowsAt b (m >>= f) (m' >>= f') := by
  intro r c hexec
  obtain ⟨a, b', hm, hf⟩ := exec_bind_eq_ok.mp hexec
  obtain ⟨warnings, hm'⟩ := first a b' hm
  obtain ⟨warnings', hf'⟩ := second a b' hm r c hf
  obtain ⟨warnings'', hmute⟩ := mute a b' warnings
  refine ⟨warnings'', ?_⟩
  rw [exec_bind_ok hm', hmute, hf']
  rfl

theorem exists_bindProperties (same : arguments.Same arguments') {decls : List PropertyDecl} {rest : Arguments}
    (h : exec (bindProperties id decls arguments) b = (.ok rest, c)) :
    ∃ rest', exec (bindProperties id decls arguments') b = (.ok rest', c) ∧ rest.Same rest' := by
  induction decls generalizing arguments arguments' b with
  | nil =>
    cases h
    exact ⟨arguments', rfl, same⟩
  | cons decl others ih =>
    rw [bindProperties] at h ⊢
    rw [same decl.name]
    cases hget : arguments.get? decl.name with
    | none =>
      rw [hget] at h
      exact ih same h
    | some argument =>
      rw [hget] at h
      obtain ⟨value, b₁, hvalue, h⟩ := exec_bind_eq_ok.mp h
      obtain ⟨_, b₂, hset, h⟩ := exec_bind_eq_ok.mp h
      obtain ⟨rest', hrest', hsame⟩ := ih (same.erase decl.name) h
      exact ⟨rest', (exec_bind_ok hvalue).trans ((exec_bind_ok hset).trans hrest'), hsame⟩

theorem bindGroups_same (same : arguments.Same arguments') (session : Session) (groups : List PortGroup) :
    bindGroups session id arguments' groups = bindGroups session id arguments groups := by
  induction groups with
  | nil => rfl
  | cons group rest ih => rw [bindGroups, bindGroups, same group.name, ih]

theorem followsAt_bindRest (distinct : b.DistinctAt id) {entries entries' : List (String × Argument)}
    (perm : entries.Perm entries') (names : (entries.map Prod.fst).Nodup) :
    FollowsAt b (bindRest id entries) (bindRest id entries') := by
  intro a c h
  cases entries with
  | nil =>
    rw [nil_perm.mp perm]
    exact ⟨c.warnings, h⟩
  | cons entry rest =>
    have hread := h
    rw [bindRest] at hread
    obtain ⟨_, _, hfirst, _⟩ := exec_bind_eq_ok.mp hread
    unfold bindOutputDefault at hfirst
    obtain ⟨node, _, hnode, _⟩ := exec_bind_eq_ok.mp hfirst
    obtain ⟨g, hg, hnode, _⟩ := exec_node_eq_ok.mp hnode
    have hexec := exec_bindRest hg hnode (distinct.nodup hg hnode) (entry :: rest)
    cases hfold : (entry :: rest).foldlM (fun node e => node.giveDefault e.1 e.2) node with
    | error e =>
      rw [hfold] at hexec
      obtain ⟨_, hexec⟩ := hexec
      rw [hexec] at h
      cases h
    | ok node' =>
      have hexec' := exec_bindRest hg hnode (distinct.nodup hg hnode) entries'
      rw [hfold] at hexec
      rw [Node.giveDefaults_perm perm names hfold] at hexec'
      obtain ⟨_, hexec⟩ := hexec
      obtain ⟨warnings, hexec'⟩ := hexec'
      rw [hexec] at h
      cases h
      exact ⟨warnings, hexec'⟩

theorem followsAt_bindArguments (session : Session) (distinct : b.DistinctAt id) (primary : Option Expr)
    (same : arguments.Same arguments') (plain : arguments.Plain) :
    FollowsAt b (bindArguments session id primary arguments) (bindArguments session id primary arguments') := by
  have plain' : arguments'.Plain := fun name argument hget => plain name argument ((same name).symm.trans hget)
  have limits := growing.limits session
  unfold bindArguments
  rw [spreadGroups_eq plain, spreadGroups_eq plain']
  apply FollowsAt.bind
  intro skipped b₁ hprimary
  have distinct₁ := distinct.within (hprimary ▸ (limits.keeps_bindPrimary id primary b trivial).within)
  apply FollowsAt.bind
  intro node b₂ hnode
  obtain ⟨_, _, _, rfl⟩ := exec_node_eq_ok.mp hnode
  apply FollowsAt.bind_exists
  intro rest b₃ hproperties
  obtain ⟨rest', hproperties', hrest⟩ := exists_bindProperties same hproperties
  refine ⟨rest', hproperties', ?_⟩
  have distinct₃ := distinct₁.within
    (hproperties ▸ (limits.keeps_bindProperties id _ (limits.admitsAll arguments) b₂ trivial).within)
  apply FollowsAt.bind
  intro node b₄ hnode
  obtain ⟨_, _, _, rfl⟩ := exec_node_eq_ok.mp hnode
  dsimp only
  generalize PortGroup.ofPorts (node.enabledInputs.filter fun port => some port.id ≠ skipped) = groups
  rw [bindGroups_same hrest]
  apply FollowsAt.bind
  intro _ b₅ hgroups
  have distinct₅ := distinct₃.within
    (hgroups ▸ (limits.keeps_bindGroups id (limits.admitsAll rest) groups b₄ trivial).within)
  have hperm := hrest.perm.filter fun entry => !groups.any fun group => group.name = entry.1
  have hnames : ((rest.entries.filter fun entry => !groups.any fun group => group.name = entry.1).map
      Prod.fst).Nodup :=
    rest.nodup.sublist (filter_sublist.map _)
  apply (followsAt_bindRest distinct₅ hperm hnames).andThen
  · exact fun _ b' => (limits.keeps_callResult id b' trivial).mute trivial
  · exact fun _ _ _ => .refl _

theorem followsAt_callGraph (session : Session) (name : String) (primary : Option Expr)
    (same : arguments.Same arguments') (plain : arguments.Plain) (b : Build) :
    FollowsAt b (callGraph session name primary arguments) (callGraph session name primary arguments') := by
  unfold callGraph
  apply FollowsAt.bind
  intro active b₁ _
  split
  · apply FollowsAt.bind
    intro _ _ h
    cases h
  apply FollowsAt.bind
  intro found b₂ _
  cases found.store.get? name with
  | none => exact .refl _
  | some target =>
    dsimp only
    apply FollowsAt.bind
    intro id b₃ hid
    apply FollowsAt.bind
    intro _ b₄ _
    apply FollowsAt.bind
    intro inputs b₅ hinputs
    apply FollowsAt.bind
    intro outputs b₆ houtputs
    apply FollowsAt.bind
    intro node b₇ hnode
    obtain ⟨g, hg, hfound, rfl⟩ := exec_node_eq_ok.mp hnode
    apply FollowsAt.bind
    intro _ b₈ hput
    apply followsAt_bindArguments session _ primary same plain
    -- The ports that replace those of the node have just been drawn.
    rw [exec_draw] at hinputs houtputs
    cases hinputs
    cases houtputs
    rw [exec_putNode hg] at hput
    cases hput
    refine ⟨_, current?_put hg _, fun changed hchanged => ?_⟩
    rw [Graph.node?_updateNode, if_pos rfl, hfound, Option.map_some, Option.some.injEq] at hchanged
    subst hchanged
    have hdraws := (Supply.draws_mapM_mint target.interface.inputSockets b₄.supply).append
      (Supply.draws_mapM_mint target.interface.outputSockets _)
    rw [← map_append] at hdraws
    rw [supply_put]
    exact ⟨hdraws.nodup, fun port hport => (hdraws.range port hport).2⟩

/-- A call gives the same result with its arguments in any order. -/
theorem followsAt_call (session : Session) (function : String) (primary : Option Expr)
    (same : arguments.Same arguments') (plain : arguments.Plain) (b : Build) :
    FollowsAt b (call session function primary arguments) (call session function primary arguments') := by
  unfold call
  cases session.functions.get? function with
  | some entry =>
    apply FollowsAt.bind
    intro id b₁ hid
    exact followsAt_bindArguments session (distinctAt_addNode hid) primary same plain
  | none =>
    apply FollowsAt.bind
    intro found b₁ _
    dsimp only
    cases found.store.graphs.values.find? fun graph => decide (snakeCase graph.name = function) with
    | none => exact .refl _
    | some graph => exact followsAt_callGraph session graph.name primary same plain b₁

/-! ## Initial state of zones in another order -/

theorem exists_bindInitial (same : initial.Same initial') {entry : NodeId} {items : List (Param × PortId)}
    {unused : Arguments} (h : exec (bindInitial session entry items initial) b = (.ok unused, c)) :
    ∃ unused', exec (bindInitial session entry items initial') b = (.ok unused', c) := by
  induction items generalizing initial initial' b with
  | nil =>
    cases h
    exact ⟨initial', rfl⟩
  | cons pair rest ih =>
    obtain ⟨item, port⟩ := pair
    rw [bindInitial] at h ⊢
    rw [same item.name]
    cases hget : initial.get? item.name with
    | none =>
      rw [hget] at h
      exact ih same h
    | some argument =>
      rw [hget] at h
      obtain ⟨operand, b₁, hoperand, h⟩ := exec_bind_eq_ok.mp h
      obtain ⟨_, b₂, hbind, h⟩ := exec_bind_eq_ok.mp h
      obtain ⟨unused', hunused'⟩ := ih (same.erase item.name) h
      exact ⟨unused', (exec_bind_ok hoperand).trans ((exec_bind_ok hbind).trans hunused')⟩

theorem exec_forM_warn (names : List String) (b : Build) : ∃ warnings,
    exec (names.forM fun name => warn (.undeclaredItem name)) b = (.ok (), b.withWarnings warnings) := by
  induction names generalizing b with
  | nil => exact ⟨b.warnings, rfl⟩
  | cons name rest ih =>
    obtain ⟨warnings, hrest⟩ := ih (b.withWarnings (b.warnings ++ [.undeclaredItem name]))
    exact ⟨warnings, hrest⟩

/-- A zone starts the same with its initial values in any order. -/
theorem followsAt_startZone (session : Session) (entry : NodeId) (items : List Param) (same : initial.Same initial')
    (b : Build) : FollowsAt b (startZone session entry items initial) (startZone session entry items initial') := by
  apply FollowsAt.bind
  intro starts b₁ _
  apply FollowsAt.bind_exists
  intro unused b₂ hunused
  obtain ⟨unused', hunused'⟩ := exists_bindInitial same hunused
  refine ⟨unused', hunused', fun result c h => ?_⟩
  obtain ⟨_, hwarn⟩ := exec_forM_warn unused.keys b₂
  obtain ⟨warnings, hwarn'⟩ := exec_forM_warn unused'.keys b₂
  rw [hwarn] at h
  cases h
  exact ⟨warnings, hwarn'⟩

end Build

/-! ## Evaluating arguments in another order -/

namespace Script.Environment

variable {environment : Environment} {args args' : List (String × Value)} {kind : ZoneKind}

/-- Evaluate one argument of a zone, where the initial state is known by its lookups. -/
def zoneStep (environment : Environment) (kind : ZoneKind) (state : Operand × (String → Option Argument))
    (arg : String × Value) : Except BuildError (Operand × (String → Option Argument)) :=
  if kind = .repetition ∧ arg.1 = iterationsArgument then do
    return (← environment.operand arg.2, state.2)
  else do
    return (state.1, Function.update state.2 arg.1 (some (← environment.argument arg.2)))

theorem zoneStep_comm {s t u : Operand × (String → Option Argument)}
    {arg arg' : String × Value} (hne : arg.1 ≠ arg'.1)
    (first : environment.zoneStep kind s arg = .ok t) (second : environment.zoneStep kind t arg' = .ok u) :
    ∃ t', environment.zoneStep kind s arg' = .ok t' ∧ environment.zoneStep kind t' arg = .ok u := by
  unfold zoneStep at first second ⊢
  split at first
  · next htest =>
      have htest' : ¬ (kind = .repetition ∧ arg'.1 = iterationsArgument) := fun h => hne (htest.2.trans h.2.symm)
      rw [if_neg htest'] at second
      obtain ⟨operand, hoperand, h⟩ := Except.bind_eq_ok.mp first
      cases h
      obtain ⟨argument, hargument, h⟩ := Except.bind_eq_ok.mp second
      cases h
      exact ⟨_, by rw [if_neg htest', hargument]; rfl, by rw [if_pos htest, hoperand]; rfl⟩
  · next htest =>
      obtain ⟨argument, hargument, h⟩ := Except.bind_eq_ok.mp first
      cases h
      split at second
      · next htest' =>
          obtain ⟨operand, hoperand, h⟩ := Except.bind_eq_ok.mp second
          cases h
          exact ⟨_, by rw [if_pos htest', hoperand]; rfl, by rw [if_neg htest, hargument]; rfl⟩
      · next htest' =>
          obtain ⟨argument', hargument', h⟩ := Except.bind_eq_ok.mp second
          cases h
          rw [Function.update_comm hne]
          exact ⟨_, by rw [if_neg htest', hargument']; rfl, by rw [if_neg htest, hargument]; rfl⟩

theorem zoneArguments_eq (kind : ZoneKind) (iterations : Operand) (initial : Arguments) :
    (environment.zoneArguments kind args iterations initial).map (fun found => (found.1, found.2.get?)) =
      args.foldlM (environment.zoneStep kind) (iterations, initial.get?) := by
  induction args generalizing iterations initial with
  | nil => rfl
  | cons arg rest ih =>
    obtain ⟨name, value⟩ := arg
    rw [zoneArguments, foldlM_cons, zoneStep]
    split
    · cases environment.operand value with
      | error e => rfl
      | ok operand => exact ih operand initial
    · cases environment.argument value with
      | error e => rfl
      | ok argument =>
        have hupdate : (initial.insert name argument).get? = Function.update initial.get? name (some argument) := by
          funext other
          rw [OrderedMap.get?_insert, Function.update_apply]
        exact (ih iterations (initial.insert name argument)).trans (by rw [hupdate]; rfl)

theorem zoneArguments_perm (perm : args.Perm args') (names : (args.map Prod.fst).Nodup) {iterations count : Operand}
    {initial found : Arguments} (h : environment.zoneArguments kind args iterations initial = .ok (count, found)) :
    ∃ found', environment.zoneArguments kind args' iterations initial = .ok (count, found') ∧ found.Same found' := by
  have hfold : args.foldlM (environment.zoneStep kind) (iterations, initial.get?) = .ok (count, found.get?) := by
    rw [← zoneArguments_eq, h]
    rfl
  have hperm := foldlM_perm (fun _ _ => zoneStep_comm) perm names hfold
  rw [← zoneArguments_eq] at hperm
  cases hzone : environment.zoneArguments kind args' iterations initial with
  | error e =>
    rw [hzone] at hperm
    cases hperm
  | ok found' =>
    rw [hzone] at hperm
    obtain ⟨hcount, hlookups⟩ := Prod.mk.inj (Except.ok.inj hperm)
    exact ⟨found'.2, by rw [← hcount], fun name => congrFun hlookups name⟩

end Script.Environment

end NodeScript
