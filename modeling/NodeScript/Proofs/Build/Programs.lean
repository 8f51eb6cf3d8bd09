import NodeScript.Proofs.Build.Openings
import NodeScript.Proofs.Script.Evaluation
import NodeScript.Proofs.Script.Parts

/-!
# Programs as constructions

The statements of a program are constructions one after another, and those inside a zone stand
around its entry.
-/

namespace NodeScript

open Draft List OrderedMap Script.Statement

namespace Script

/-! ## Environments -/

namespace Environment

variable {selected : String → Prop} {p q : Expr → Prop} {environment : Environment} {result : CallResult}
  {source : Expr} {value : Value} {names : List String} {arguments found : Arguments} {argument : Argument}
  {args : List (String × Value)}

/-- All values that can be taken from names satisfy a condition. -/
def Over (selected : String → Prop) (p : Expr → Prop) (environment : Environment) : Prop :=
  ∀ name result, environment.get? name = some result → ∀ source, result.Offers selected source → p source

theorem Over.mono (h : environment.Over selected p) (imp : ∀ source, p source → q source) :
    environment.Over selected q :=
  fun name result hget source hsource => imp source (h name result hget source hsource)

theorem Over.insert (h : environment.Over selected p) (hresult : ∀ source, result.Offers selected source → p source)
    (name : String) : Over selected p (OrderedMap.insert environment name result) := by
  intro other found hget
  rw [get?_insert] at hget
  split at hget
  · cases hget
    exact hresult
  · exact h other found hget

theorem lookup_eq_ok {name : String} (h : environment.lookup name = .ok result) :
    environment.get? name = some result := by
  unfold lookup at h
  split at h
  · cases h
    assumption
  · cases h

theorem offers_only (h : result.only = .ok source) : result.Offers selected source := by
  cases result with
  | single expr =>
    cases h
    rfl
  | named outputs => cases h

theorem offers_output {name : String} (h : result.output name = .ok source) (hname : selected name) :
    result.Offers selected source := by
  cases result with
  | single expr => cases h
  | named outputs =>
    unfold CallResult.output at h
    dsimp only at h
    cases hget : outputs.get? name with
    | none =>
      rw [hget] at h
      cases h
    | some found =>
      rw [hget] at h
      cases h
      exact ⟨name, hname, hget⟩

/-- The outputs that the value selects are among the selected ones. -/
def Selects (selected : String → Prop) (value : Value) : Prop :=
  ∀ base output, Value.select base output ∈ value.leaves → selected output

/-- An argument holds values of the environment. -/
theorem argument_over (held : environment.Over selected p) (selects : Selects selected value)
    (h : environment.argument value = .ok argument) : argument.Over p := by
  revert selects
  apply argument_induction (motive := fun value argument => Selects selected value → argument.Over p) ?_ ?_ ?_ ?_ h
  · exact fun value _ => .literal value
  · refine fun items found ih selects => .list fun argument hargument => ?_
    obtain ⟨item, hitem, hover⟩ := ih argument hargument
    exact hover fun base output hleaf => selects base output (Value.leaves_subset hitem hleaf)
  · exact fun name result source hresult hsource _ =>
      .expr (held name result (lookup_eq_ok hresult) source (offers_only hsource))
  · exact fun name output result source hresult hsource selects =>
      .expr (held name result (lookup_eq_ok hresult) source
      (offers_output hsource (selects name output (mem_singleton_self _))))

theorem operand_over (held : environment.Over selected p) (selects : Selects selected value) {operand : Operand}
    (h : environment.operand value = .ok operand) : operand.Over p := by
  unfold Environment.operand at h
  rw [Except.bind_eq_ok] at h
  obtain ⟨argument, hargument, h⟩ := h
  have hover := argument_over held selects hargument
  cases hover with
  | expr hsource =>
    cases h
    exact hsource
  | literal value =>
    cases h
    trivial
  | choice chosen => cases h
  | list _ => cases h
  | group _ => cases h

theorem plain_of_namedArguments (h : environment.namedArguments args ∅ = .ok arguments) : arguments.Plain :=
  fun _ _ hget => namedArguments_forall (Q := fun _ argument => ∀ group, argument ≠ .group group)
    (fun _ _ _ h => argument_ne_group h) h hget

/-- A name for the reference is written as a text. -/
theorem mem_of_refers (h : environment.namedArguments args ∅ = .ok arguments) {text : String}
    (refers : arguments.Refers text) : (graphProperty, Value.literal (.text text)) ∈ args := by
  obtain ⟨argument, decl, hget, hvalue⟩ := refers
  obtain ⟨value, hmem, hargument⟩ := namedArguments_forall
    (Q := fun name argument => ∃ value, (name, value) ∈ args ∧ environment.argument value = .ok argument)
    (fun arg harg argument h => ⟨arg.2, harg, h⟩) h hget
  rcases PropertyDecl.eq_of_valueOf_graph hvalue with rfl | rfl
  · exact absurd rfl (argument_ne_choice hargument _)
  · exact eq_literal_of_argument hargument rfl ▸ hmem

theorem Over.withInputs (held : environment.Over selected p) {inputs : Inputs}
    (hinputs : ∀ name input, inputs.get? name = some input → ∃ source, input = .value source ∧ p source) :
    (environment.withInputs inputs).Over selected p := by
  have hentries : ∀ e ∈ inputs.entries, ∃ source, e.2 = .value source ∧ p source := fun e he =>
    hinputs e.1 e.2 (get?_eq_some_iff.mpr he)
  unfold Environment.withInputs
  revert hentries
  generalize inputs.entries = entries
  intro hentries
  induction entries generalizing environment with
  | nil => exact held
  | cons e rest ih =>
    obtain ⟨name, input⟩ := e
    obtain ⟨source, rfl, hsource⟩ := hentries (name, input) mem_cons_self
    refine ih (held.insert (fun other hother => ?_) name) fun e he => hentries e (.tail _ he)
    rw [show other = source from hother]
    exact hsource

end Environment

end Script

/-! ## Statements -/

namespace Site

open Script

variable {site : Site} {draft draft' : Draft} {path : List NodeId}

/-- Statements that keep to the rules inside the zones of a path. -/
structure Follows (site : Site) (path : List NodeId) (statements : List Statement) : Prop where
  calls : ∀ statement ∈ partsIn statements, ∀ function names, statement.Calls function names →
    site.rules.call function names
  refers : ∀ target function args, Statement.call target function args ∈ partsIn statements →
    ∀ text, (graphProperty, Value.literal (.text text)) ∈ args → site.rules.refers function text
  items : ∀ statement ∈ partsIn statements, ∀ item ∈ statement.items, site.rules.item item.name
  selects : ∀ statement ∈ partsIn statements, ∀ value ∈ statement.values,
    Environment.Selects site.rules.selected value
  depth : path.length + depthIn statements ≤ site.rules.depth

namespace Follows

variable {statement : Statement} {rest : List Statement}

/-- Fewer statements with zones that are not nested more deeply. -/
theorem of_subset {statements others : List Statement} {inner : List NodeId} (h : site.Follows path statements)
    (hparts : partsIn others ⊆ partsIn statements)
    (hdepth : inner.length + depthIn others ≤ path.length + depthIn statements) :
    site.Follows inner others where
  calls part hpart := h.calls part (hparts hpart)
  refers target function args hpart := h.refers target function args (hparts hpart)
  items part hpart := h.items part (hparts hpart)
  selects part hpart := h.selects part (hparts hpart)
  depth := Nat.le_trans hdepth h.depth

theorem head (h : site.Follows path (statement :: rest)) : site.Follows path [statement] := by
  apply h.of_subset
  · intro part hpart
    rw [partsIn, partsIn, append_nil] at hpart
    exact mem_append_left _ hpart
  · simp only [depthIn]
    omega

theorem tail (h : site.Follows path (statement :: rest)) : site.Follows path rest := by
  apply h.of_subset
  · exact fun part hpart => mem_append_right _ hpart
  · simp only [depthIn]
    omega

theorem body {target : String} {kind : ZoneKind} {items : List Parameter} {args : List (String × Value)}
    {body : List Statement} {next : List Value} (h : site.Follows path [.zone target kind items args body next])
    (entry : NodeId) : site.Follows (entry :: path) body := by
  apply h.of_subset
  · intro part hpart
    rw [partsIn, Statement.parts]
    exact mem_append_left _ (.tail _ hpart)
  · simp only [depthIn, Statement.depth, length_cons]
    omega

end Follows

/-- The step of a zone has run, and its next values can be bound. -/
def Stepped (site : Site) (before : Draft) (path : List NodeId)
    (resolved : List (String × SocketType)) (zone : Opening)
    (exit : Node) (result : Inputs × List Operand) (draft : Draft) : Prop :=
  ∃ entry, entry.id = zone.entry ∧ Entered before draft path zone.kind resolved entry exit ∧
    StateOf site.name zone.params entry result.1 ∧
    ∀ value ∈ result.2, value.Over (site.Valid draft (zone.entry :: path))

section Zone

variable {before : Draft} {zone : Opening} {resolved : List (String × SocketType)} {entry exit : Node}

theorem logs_step (sound : draft.Sound site.rules) (follows : site.Follows path [zone.statement])
    (entered : site.Runs (zone.enter site.session) draft fun inputs draft' => ∃ entry, entry.id = zone.entry ∧
      Entered before draft' path zone.kind resolved entry exit ∧ StateOf site.name zone.params entry inputs ∧
        ∀ name input, inputs.get? name = some input →
          ∃ source, input = .value source ∧ site.Valid draft' (zone.entry :: path) source)
    (held : zone.environment.Over site.rules.selected (site.Valid draft path))
    (body : ∀ {environment : Environment} {draft' : Draft}, draft'.Sound site.rules →
      environment.Over site.rules.selected (site.Valid draft' (zone.entry :: path)) →
      site.Logs draft' (buildAll site.session environment zone.body)
        (openingsIn site.session environment zone.body) draft' fun environment' draft'' =>
          Undisturbed draft' draft'' ∧
            environment'.Over site.rules.selected (site.Valid draft'' (zone.entry :: path))) :
    site.Logs draft (zone.step site.session) (fun b => Build.after (zone.enter site.session) b fun inputs b =>
      openingsIn site.session (zone.environment.withInputs inputs) zone.body b) draft
      (site.Stepped before path resolved zone exit) := by
  have hselects := follows.selects zone.statement (mem_append_left _ (mem_parts_self _))
  refine entered.bindLogs sound ?_
  rintro inputs draft₁ sound₁ later₁ ⟨entry, hid, entered, state, hinputs⟩
  have held₁ : zone.environment.Over site.rules.selected (site.Valid draft₁ (zone.entry :: path)) :=
    held.mono fun source h => (h.later later₁).widen (suffix_cons zone.entry path)
  refine ((body sound₁ (held₁.withInputs hinputs)).earlier later₁).bindRuns sound₁ later₁ ?_
  rintro inner draft₂ sound₂ later₂ ⟨undisturbed, held₂⟩
  refine Runs.bindExcept sound₂ fun values hvalues => Runs.pure ⟨entry, hid, entered.undisturbed sound₁ undisturbed,
    state, fun operand hoperand => ?_⟩
  obtain ⟨value, hvalue, hoperand⟩ := forall₂_exists_left (Except.forall₂_of_mapM hvalues) hoperand
  exact Environment.operand_over held₂ (hselects value (mem_append_right _ hvalue)) hoperand

/-- Binding the next values finishes the zone. -/
theorem runs_finish (sound : draft.Sound site.rules) {result : Inputs × List Operand}
    (stepped : site.Stepped before path resolved zone exit result draft) (standard : site.session.IsStandard)
    (hdepth : path.length + 1 ≤ site.rules.depth)
    (hresolved : Build.resolveItems site.session.classes zone.params = .ok resolved)
    (named : ∀ item ∈ zone.params, site.rules.item item.name) (hexit : exit.id = zone.exit) :
    site.Runs (finishZone site.session zone.exit zone.params result.2) draft fun r draft' =>
      site.Gives before path r draft' ∧ zone.Finished site result draft' := by
  obtain ⟨entry, hid, entered, state, hvalues⟩ := stepped
  have hitems := (resolveItems_eq_ok hresolved).imp fun _ _ h => h.1
  rw [← hid] at hvalues
  rw [← hexit]
  refine (runs_finishZone sound hdepth standard entered hitems named hvalues).andLater sound ?_
  rintro r draft' _ later ⟨gives, short, exitDone, exit', _, found, continues⟩
  refine ⟨gives, by simpa [Opening.params] using short, ?_,
    hexit ▸ exitDone, ⟨entry, ?_, state⟩, exit', hexit ▸ found,
    continues⟩
  · exact hid ▸ later.done.subset entered.done
  · exact hid ▸ (later.kept _ entered.done).trans entered.found

end Zone

mutual

theorem logs_build (standard : site.session.IsStandard) (statement : Statement) {environment : Environment}
    {path : List NodeId} {draft : Draft} (sound : draft.Sound site.rules) (follows : site.Follows path [statement])
    (held : environment.Over site.rules.selected (site.Valid draft path)) :
    site.Logs draft (statement.build site.session environment) (statement.openings site.session environment) draft
      fun result draft' => Undisturbed draft draft' ∧
        ∀ source, result.Offers site.rules.selected source → site.Valid draft' path source := by
  have hdepth := follows.depth
  have hpart : statement ∈ partsIn [statement] := mem_append_left _ (mem_parts_self _)
  have hselects := follows.selects statement hpart
  cases statement with
  | call target function args =>
    rw [Statement.build, openings]
    refine Runs.logs (Runs.bindExcept sound fun arguments harguments => ?_) draft
    have hover : ∀ name argument, arguments.get? name = some argument → argument.Over (site.Valid draft path) :=
      fun _ _ => Environment.namedArguments_forall (Q := fun _ argument => argument.Over (site.Valid draft path))
        (fun arg harg _ h => Environment.argument_over held (hselects arg.2 (mem_map_of_mem harg)) h) harguments
    have hkeys : arguments.keys ⊆ args.map Prod.fst := by
      intro name hname
      obtain ⟨argument, hget⟩ := mem_keys_iff.mp hname
      exact Environment.namedArguments_forall (Q := fun name _ => name ∈ args.map Prod.fst)
        (fun _ harg _ _ => mem_map_of_mem harg) harguments hget
    have callable : site.Callable draft path arguments :=
      ⟨sound, standard, Nat.le_trans (Nat.le_add_right _ _) hdepth,
        Environment.plain_of_namedArguments harguments, hover⟩
    exact callable.runs_call (follows.calls _ hpart function _ ⟨rfl, hkeys⟩) fun text refers =>
      follows.refers target function args hpart text (Environment.mem_of_refers harguments refers)
  | zone target kind items args body next =>
    have hzone : depthIn [.zone target kind items args body next] = depthIn body + 1 := by
      simp [depthIn, Statement.depth]
    have hroom : path.length + 1 ≤ site.rules.depth := by omega
    have hnames : ∀ item ∈ items.map Parameter.item, site.rules.item item.name := by
      intro item hitem
      obtain ⟨parameter, hparameter, rfl⟩ := mem_map.mp hitem
      exact follows.items _ hpart parameter hparameter
    -- The step does not depend on the build that its zone was created in.
    rw [build_zone _ _ _ _ _ _ { store := .empty, supply := {} }, openings]
    refine Logs.bindExcept sound fun (iterations, initial) hfound => ?_
    have honce : Operand.Over (site.Valid draft path) (.literal (.int 1)) := trivial
    have hargs : ∀ arg ∈ args, Environment.Selects site.rules.selected arg.2 := fun arg harg =>
      hselects arg.2 (mem_append_left _ (mem_map_of_mem harg))
    obtain ⟨hiterations, hinitial⟩ := Environment.zoneArguments_forall
      (Q := fun _ argument => argument.Over (site.Valid draft path))
      (fun arg harg _ h => Environment.operand_over held (hargs arg harg) h)
      (fun arg harg _ h => Environment.argument_over held (hargs arg harg) h) honce (fun _ _ h => by cases h) hfound
    refine (runs_createZone sound standard hroom kind (items.map Parameter.item)).bindLogs sound ?_
    rintro ends draft₁ sound₁ later₁ ⟨resolved, entry, exit, hresolved, rfl, zone, entryUnbound, exitUnbound⟩
    have entered := runs_enterZone sound₁ standard hroom zone entryUnbound exitUnbound hresolved hnames
      (hiterations.mono fun _ h => h.later later₁) fun name argument hget =>
        (hinitial name argument hget).mono fun _ h => h.later later₁
    refine Logs.openZone sound₁ later₁ entryUnbound.new ⟨resolved, entry, exit, hresolved, entryUnbound.found,
      entryUnbound.inner, zone.paired, exitUnbound.found, exitUnbound.inner, by rw [zone.entryInfo],
      by rw [zone.exitInfo]⟩ (logs_step sound₁ follows entered (held.mono fun _ h => h.later later₁)
        fun sound' held' => logs_buildAll standard body sound' (follows.body entry.id) held') ?_
    intro result draft₂ sound₂ later₂ stepped
    refine (runs_finish sound₂ stepped standard hroom hresolved hnames rfl).mono fun r draft₃ h => ⟨⟨h.1.1, ?_⟩, h.2⟩
    exact fun source hsource => h.1.2 source hsource.mem_exprs

theorem logs_buildAll (standard : site.session.IsStandard) (statements : List Statement) {environment : Environment}
    {path : List NodeId} {draft : Draft} (sound : draft.Sound site.rules) (follows : site.Follows path statements)
    (held : environment.Over site.rules.selected (site.Valid draft path)) :
    site.Logs draft (buildAll site.session environment statements)
      (openingsIn site.session environment statements) draft fun environment' draft' =>
        Undisturbed draft draft' ∧ environment'.Over site.rules.selected (site.Valid draft' path) := by
  cases statements with
  | nil =>
    rw [buildAll, openingsIn]
    exact Runs.logs (Runs.pure ⟨.refl draft, held⟩) draft
  | cons statement rest =>
    rw [buildAll, openingsIn]
    refine (logs_build standard statement sound follows.head held).bind sound (.refl draft) ?_
    rintro result draft₁ sound₁ later₁ ⟨undisturbed₁, hresult⟩
    have held₁ := (held.mono fun source h => h.later later₁).insert hresult statement.target
    refine (logs_buildAll standard rest sound₁ follows.tail held₁).mono ?_
    rintro environment' draft₂ ⟨undisturbed₂, held₂⟩
    exact ⟨undisturbed₁.trans undisturbed₂, held₂⟩

end

end Site

end NodeScript
