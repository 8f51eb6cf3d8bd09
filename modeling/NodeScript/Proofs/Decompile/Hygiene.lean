import NodeScript.Proofs.Build.Boundaries
import NodeScript.Proofs.Decompile.Names
import NodeScript.Proofs.Text.Naming

/-!
# Names of rebuilt programs

A program whose signature is accepted leaves a graph that can be decompiled. The parameters come
back under the names that the interface gave them, and the statements under categories with numbers:
a statement is mixed up with a parameter or an item only where that has such a name itself. Another
build gives the inputs the titles that they have.
-/

namespace NodeScript

open Script

namespace Graph

variable {graph : Graph} {id : NodeId} {node : Node}

theorem exists_source? (h : graph.node? id = some node) (hrole : node.role = .groupInput) :
    ∃ source, graph.source? = some source := by
  refine Option.isSome_iff_exists.mp (List.find?_isSome.mpr ⟨node, ?_, decide_eq_true hrole⟩)
  exact OrderedMap.mem_values_iff.mpr ⟨id, h⟩

theorem exists_sinks (h : graph.node? id = some node) (hrole : node.role = .groupOutput) :
    ∃ sink others, graph.sinks = sink :: others := by
  have hmem : node ∈ graph.sinks :=
    List.mem_filter.mpr ⟨OrderedMap.mem_values_iff.mpr ⟨id, h⟩, decide_eq_true hrole⟩
  exact List.exists_cons_of_ne_nil (List.ne_nil_of_mem hmem)

/-- A graph with both boundary nodes can be decompiled. -/
theorem Built.exists_decompile {rules : Rules} {inputs : List Entry} (built : graph.Built rules inputs)
    (catalog : Catalog) : ∃ program, graph.decompile catalog = .ok program := by
  obtain ⟨draft, rfl, sound, _⟩ := built.drafted
  obtain ⟨_, _, _, hsource, hrole, _⟩ := sound.source
  obtain ⟨_, _, _, hsink, hrole', _⟩ := sound.sink
  obtain ⟨source, hsource⟩ := exists_source? hsource hrole
  obtain ⟨sink, others, hsinks⟩ := exists_sinks hsink hrole'
  unfold decompile Decompilation.ofGraph
  rw [hsource, hsinks]
  exact ⟨_, rfl⟩

end Graph

namespace Script.Program

open Build

variable {session : Session} {program : Program}

/-- The inputs of a graph that a program leaves have the titles of its parameters. -/
theorem titles_build (s : Supply) {params : List ResolvedParam}
    (h : program.inputs (Session.standard s) = .ok params)
    (b : Build) : ∃ graph decompiled,
      (exec (program.build (Session.standard s)) b).2.store.get? program.name = some graph ∧
      graph.decompile (Session.standard s).catalog = .ok decompiled ∧
      (graph.interface.inputs.map fun entry => entry.name) = program.paramNames.map titleCase ∧
      decompiled.paramNames = program.paramNames.map fun name => snakeCase (titleCase name) := by
  obtain ⟨graph, _, inputs, hget, built, hdeclared⟩ := built_build s h b
  obtain ⟨decompiled, hdecompiled⟩ := built.exists_decompile (Session.standard s).catalog
  have htitles : (graph.interface.inputs.map fun entry => entry.name) = program.paramNames.map titleCase := by
    have hnames := congrArg (List.map Declaration.name) hdeclared
    rw [List.map_map, List.map_map] at hnames
    rw [built.inputs]
    exact hnames.trans (inputs_eq_ok h).1
  refine ⟨graph, decompiled, hget, hdecompiled, htitles, ?_⟩
  calc decompiled.paramNames
      = (graph.interface.inputs.map fun entry => entry.name).map snakeCase := by
        rw [(Graph.decompile_names hdecompiled).2.2, List.map_map]
        rfl
    _ = program.paramNames.map fun name => snakeCase (titleCase name) := by
        rw [htitles, List.map_map]
        rfl

/-- A program with a faulty signature changes nothing. Otherwise the graph it leaves behind can be
decompiled, whether the build succeeds or not: the parameters come back in order under the names
that their titles give, all statements have different targets, and every target is a category with a
number. -/
theorem hygienic_decompile (s : Supply) (program : Program) (b : Build) :
    match program.inputs (Session.standard s) with
    | .error e => exec (program.build (Session.standard s)) b = (.error e, b)
    | .ok _ => ∃ graph decompiled,
        (exec (program.build (Session.standard s)) b).2.store.get? program.name = some graph ∧
        graph.decompile (Session.standard s).catalog = .ok decompiled ∧
        decompiled.paramNames = program.paramNames.map (fun name => snakeCase (titleCase name)) ∧
        program.paramNames.Nodup ∧ decompiled.targets.Nodup ∧
        ∀ target ∈ decompiled.targets, ∃ category n, target = Category.numbered category n := by
  cases hinputs : program.inputs (Session.standard s) with
  | error e => exact exec_build_error hinputs b
  | ok params =>
    obtain ⟨graph, decompiled, hget, hdecompiled, _, hnames⟩ := titles_build s hinputs b
    obtain ⟨hnodup, hnumbered, _⟩ := Graph.decompile_names hdecompiled
    exact ⟨graph, decompiled, hget, hdecompiled, hnames, (inputs_eq_ok hinputs).2, hnodup, hnumbered⟩

/-- A name that is made of a title gives the title back, and it is the name that the title was made
of if that is plain. So the inputs of a graph keep their titles when it is decompiled and built
again. -/
theorem titles_stable (s : Supply) :
    (∀ name : String, IsAscii name.toList → titleCase (snakeCase (titleCase name)) = titleCase name ∧
      (snakeCase (titleCase name) = name ↔ IsPlain name.toList)) ∧
    ∀ (program : Program) (params : List ResolvedParam) (b : Build),
      program.inputs (Session.standard s) = .ok params →
      (∀ name ∈ program.paramNames, IsAscii name.toList) → ∃ graph decompiled,
        (exec (program.build (Session.standard s)) b).2.store.get? program.name = some graph ∧
        graph.decompile (Session.standard s).catalog = .ok decompiled ∧
        (graph.interface.inputs.map fun entry => entry.name) = decompiled.paramNames.map titleCase ∧
        ∀ (again : List ResolvedParam) (c : Build), decompiled.inputs (Session.standard s) = .ok again → ∃ rebuilt,
          (exec (decompiled.build (Session.standard s)) c).2.store.get? decompiled.name = some rebuilt ∧
          (rebuilt.interface.inputs.map fun entry => entry.name) =
            graph.interface.inputs.map fun entry => entry.name := by
  refine ⟨fun name hname => ⟨titleCase_snakeCase_titleCase hname, snakeCase_titleCase_eq_iff hname⟩, ?_⟩
  intro program params b hinputs hascii
  obtain ⟨graph, decompiled, hget, hdecompiled, htitles, hnames⟩ := titles_build s hinputs b
  have hderived : (graph.interface.inputs.map fun entry => entry.name) = decompiled.paramNames.map titleCase := by
    rw [htitles, hnames, List.map_map]
    exact List.map_congr_left fun name hname => (titleCase_snakeCase_titleCase (hascii name hname)).symm
  refine ⟨graph, decompiled, hget, hdecompiled, hderived, fun again c hagain => ?_⟩
  obtain ⟨rebuilt, _, hrebuilt, _, htitles', _⟩ := titles_build s hagain c
  exact ⟨rebuilt, hrebuilt, htitles'.trans hderived.symm⟩

/-- Whether a build succeeds and the program that its graph decompiles to passes a test. -/
def decompilesTo (name : String) (catalog : Catalog) (test : Program → Bool) : Except BuildError Unit × Build → Bool
  | (.ok (), b) => (b.store.get? name).any fun graph => (graph.decompile catalog).toOption.any test
  | (.error _, _) => false

theorem exists_of_decompilesTo {built : Except BuildError Unit × Build} {name : String} {catalog : Catalog}
    {test : Program → Bool} (h : decompilesTo name catalog test built = true) :
    built.1 = .ok () ∧ ∃ graph decompiled, built.2.store.get? name = some graph ∧
      graph.decompile catalog = .ok decompiled ∧ test decompiled = true := by
  obtain ⟨_ | _, b⟩ := built
  · cases h
  · obtain ⟨graph, hgraph, hany⟩ := (Option.any_eq_true _ _).mp h
    cases hdecompiled : graph.decompile catalog with
    | error e =>
      rw [hdecompiled] at hany
      cases hany
    | ok decompiled =>
      rw [hdecompiled] at hany
      exact ⟨rfl, graph, decompiled, hgraph, hdecompiled, hany⟩

/-- A program with a parameter that is named like a statement. -/
def capture : Program where
  name := "Capture"
  params := [⟨"math1", "Float", none⟩, ⟨"x", "Float", none⟩]
  statements := [.call "double" "math" [("value", .list [.name "x", .name "x"])],
    .call "sum" "math" [("value", .list [.name "math1", .name "double"])]]
  returns := [("Sum", .name "sum")]

/-- The first statement comes back under the name of the parameter. -/
theorem not_hygienic_capture :
    let built := exec (capture.build (Session.standard {})) { store := .empty, supply := {} }
    built.1 = .ok () ∧ ∃ graph decompiled, built.2.store.get? "Capture" = some graph ∧
      graph.decompile (Session.standard {}).catalog = .ok decompiled ∧
      "math1" ∈ decompiled.paramNames ∧ "math1" ∈ decompiled.targets := by
  intro built
  have hrun : decompilesTo "Capture" (Session.standard {}).catalog
      (fun decompiled => decide ("math1" ∈ decompiled.paramNames ∧ "math1" ∈ decompiled.targets)) built = true := by
    decide +kernel
  obtain ⟨hbuilt, graph, decompiled, hgraph, hdecompiled, hfault⟩ := exists_of_decompilesTo hrun
  exact ⟨hbuilt, graph, decompiled, hgraph, hdecompiled, of_decide_eq_true hfault⟩

end Script.Program

end NodeScript
